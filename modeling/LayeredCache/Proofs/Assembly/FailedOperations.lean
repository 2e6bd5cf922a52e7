import LayeredCache.Proofs.Assembly.Chains
import LayeredCache.Proofs.Json.RoundTrip
import LayeredCache.Proofs.Layer.Failures

/-!
# Failed operations on a built cache

In every state that threads can bring a built cache to, it is known what an operation that fails has done to
the entries: see `Perpetual.AfterFailure`.
-/

namespace LayeredCache

variable {E : Extension}

open Perpetual

/-! ## Operations that fail -/

/-- What an operation has done to the entries if it failed. A put has taken away the entry of another key, and
perhaps more of them, and its own value is stored or not. A lookup has changed nothing, and a removal has
removed its entry. Clears and sizes do not fail. -/
def Perpetual.AfterFailure (form : Json → Json) (p p' : Perpetual) : Operation Json → Prop
  | .put key value => Evolved key (some (form value)) p p' ∧ Lost key p p'
  | .get _ => p' = p
  | .remove key => p.get? key ≠ none ∧ p' = p.erase key
  | .clear => False
  | .size => False

section

variable {σ : Type} {cache : Cache σ} {bottom : σ → Perpetual} {form : Json → Json} {ok : σ → Prop}

/-- Whatever operation fails in the state, its effect on the entries is known. -/
def Cache.Accounted (cache : Cache σ) (bottom : σ → Perpetual) (form : Json → Json) (s : σ) : Prop :=
  ∀ call operation e s' later,
    (cache.perform call s operation).alone call.now = some (.error e, s', later) →
      (bottom s).AfterFailure form (bottom s') operation

/-- The operations that do not wait, and the lookups, account for what becomes of the entries. -/
lemma Cache.accounted_of {s : σ} (hunlocked : cache.unlocked s = true)
    (hput : ∀ call key value, Effect key (some (form value)) (bottom s) (cache.put call key value s).1
      (bottom (cache.put call key value s).2))
    (hget : ∀ call key e s' later, (cache.get call key s).alone call.now = some (.error e, s', later) →
      bottom s' = bottom s)
    (hremove : ∀ call key, Removal key (bottom s) (cache.remove call key s).1
      (bottom (cache.remove call key s).2))
    (hclear : ∀ call, (cache.clear call s).1 = .ok ()) (hsize : ∀ call, ∃ n, (cache.size call s).1 = .ok n) :
    cache.Accounted bottom form s := by
  intro call operation e s' later hfails
  cases operation with
  | put key value =>
    have heffect := hput call key value
    rw [perform, gated_of_unlocked hunlocked] at hfails
    rcases hresult : cache.put call key value s with ⟨outcome, rest⟩
    rw [hresult] at heffect hfails
    cases heffect <;> cases hfails
    rename_i hevolved hlost
    exact ⟨hevolved, hlost⟩
  | get key =>
    rw [perform, Action.alone_map] at hfails
    obtain ⟨⟨outcome, rest, instant⟩, hlookup, hmapped⟩ := Option.map_eq_some_iff.1 hfails
    cases outcome <;> cases hmapped
    exact hget call key e _ _ hlookup
  | remove key =>
    have hremoval := hremove call key
    rw [perform, gated_of_unlocked hunlocked] at hfails
    rcases hresult : cache.remove call key s with ⟨outcome, rest⟩
    rw [hresult] at hremoval hfails
    cases outcome <;> cases hfails
    exact hremoval.of_error
  | clear =>
    have hcleared := hclear call
    rw [perform, gated_of_unlocked hunlocked] at hfails
    rcases hresult : cache.clear call s with ⟨outcome, rest⟩
    rw [hresult] at hcleared hfails
    cases hcleared
    cases hfails
  | size =>
    obtain ⟨n, hcounted⟩ := hsize call
    rw [perform, gated_of_unlocked hunlocked] at hfails
    rcases hresult : cache.size call s with ⟨outcome, rest⟩
    rw [hresult] at hcounted hfails
    cases hcounted
    cases hfails

/-- A lookup that is admitted at once or after a wait does what the inner one does then. -/
lemma Blocking.get_spares {inner : Cache σ} (h : inner.Contained bottom form ok) {call : Call} {key : String}
    {s s' : Blocking × σ} (hs : ok s.2) {outcome : Found} {later : Nat}
    (hget : (get inner call key s).alone call.now = some (outcome, s', later)) (hfound : outcome ≠ .ok none) :
    bottom s'.2 = bottom s.2 := by
  have hadmitted (call : Call) (now : Nat) (own : Blocking)
      (h' : (admitted inner call key (own, s.2)).alone now = some (outcome, s', later)) :
      bottom s'.2 = bottom s.2 := by
    obtain ⟨found, rest, hrest, hsame, -⟩ := h.get call key hs
    rw [admitted, hrest] at h'
    cases found with
    | error e =>
      cases h'
      exact hsame nofun
    | ok value =>
      cases value with
      | none =>
        cases h'
        exact absurd rfl hfound
      | some v =>
        cases h'
        exact hsame nofun
  unfold get at hget
  split at hget
  · exact hadmitted _ _ _ hget
  · split at hget
    · cases hget
      rfl
    · rw [await] at hget
      cases htimeout : s.1.timeout with
      | none =>
        rw [htimeout] at hget
        cases hget
      | some ms =>
        rw [htimeout] at hget
        simp only [Option.map_some, Action.alone] at hget
        split at hget
        · exact hadmitted _ _ _ hget
        · cases hget
          rfl

/-- In one of its states, a cache accounts for every failure. -/
lemma Cache.Contained.accounted (h : cache.Contained bottom form ok) {s : σ} (hs : ok s) :
    cache.Accounted bottom form s := by
  refine accounted_of (h.unlocked hs) (fun call key value => (h.put call key value hs).1) ?_
    (fun call key => (h.remove call key hs).1) (fun call => ?_) fun call => ?_
  · intro call key e s' later hfails
    obtain ⟨outcome, rest, hget, hsame, -⟩ := h.get call key hs
    rw [hget] at hfails
    cases hfails
    exact hsame nofun
  · obtain ⟨s', hclear, -, -⟩ := h.clear call hs
    rw [hclear]
  · obtain ⟨n, s', hsize, -⟩ := h.size call hs
    exact ⟨n, by rw [hsize]⟩

/-- So does the cache that blocks around it, whatever keys are held. -/
lemma Blocking.accounted {inner : Cache σ} (h : inner.Contained bottom form ok) {s : Blocking × σ}
    (hs : ok s.2) : (around inner).Accounted (fun s => bottom s.2) form s := by
  refine Cache.accounted_of (h.unlocked hs) (fun call key value => (h.put call key value hs).1) ?_
    (fun call key => (h.remove call key hs).1) (fun call => ?_) fun call => ?_
  · intro call key e s' later hfails
    exact get_spares h hs hfails nofun
  · obtain ⟨s', hclear, -, -⟩ := h.clear call hs
    exact congrArg Prod.fst hclear
  · obtain ⟨n, s', hsize, -⟩ := h.size call hs
    exact ⟨n, congrArg Prod.fst hsize⟩

end

/-! ## Failures in built chains -/

namespace Chain

variable {p : Perpetual} {layers : List (Layer E)} {values : Json → Prop}

/-- The form in which the storage beneath the layers holds a value. -/
def form : List (DecoratorKind E) → Json → Json
  | [], value => value
  | .serialized :: ds, value => form ds (Serialized.encode value)
  | _ :: ds, value => form ds value

/-- Layers in their first state contain failures. -/
lemma exists_contained (hnew : ∀ layer ∈ layers, layer.New) :
    ∃ ok, (cache .perpetual (layers.map Layer.kind)).Contained (bottom _) (form (layers.map Layer.kind)) ok ∧
      ok (ofLayers p layers) := by
  induction layers with
  | nil => exact ⟨_, Perpetual.contained, trivial⟩
  | cons layer layers ih =>
    obtain ⟨hlayer, hlayers⟩ := List.forall_mem_cons.1 hnew
    obtain ⟨ok, hcontained, hfirst⟩ := ih hlayers
    cases hlayer with
    | lru => exact ⟨_, Lru.contained hcontained, trivial, hfirst⟩
    | fifo => exact ⟨_, Fifo.contained hcontained, Nat.zero_le _, hfirst⟩
    | scheduled => exact ⟨_, Scheduled.contained hcontained, hfirst⟩
    | serialized => exact ⟨_, Serialized.contained hcontained, trivial, hfirst⟩
    | logging => exact ⟨_, Logging.contained hcontained, trivial, hfirst⟩
    | synchronized => exact ⟨_, Synchronized.contained hcontained, rfl, hfirst⟩

lemma always_accounted (hnew : ∀ layer ∈ layers, layer.New) :
    Always values p layers
      ((cache .perpetual _).Accounted (bottom _) (form (layers.map Layer.kind))) := by
  obtain ⟨ok, hcontained, hfirst⟩ := exists_contained hnew
  exact ⟨ok, hcontained.keeps.mono fun _ _ => trivial, hfirst, fun _ hs => hcontained.accounted hs⟩

/-- A layer that blocks can come around them. -/
lemma always_accounted_blocking (hnew : ∀ layer ∈ layers, layer.New) (timeout : Option Nat) :
    Always values p (⟨.blocking, Blocking.empty timeout⟩ :: layers)
      ((cache .perpetual _).Accounted (bottom _) (form (layers.map Layer.kind))) := by
  obtain ⟨ok, hcontained, hfirst⟩ := exists_contained hnew
  exact ⟨_, Blocking.keeps (hcontained.keeps.mono fun _ _ => trivial), hfirst,
    fun _ hs => Blocking.accounted hcontained hs⟩

end Chain

namespace Spec

variable {spec : Spec E} {now : Nat}

/-- Whatever threads have done with a built cache, it is known what an operation that fails then does to the
entries. -/
theorem effect_of_failure {stack : Stack E} (hbuiltIn : spec.BuiltIn) (hbuild : spec.build now = .ok stack) :
    ∃ (ds : List (DecoratorKind E)) (state : Chain .perpetual ds), stack = ⟨.perpetual, ds, state⟩ ∧
      ∀ session, Session.Reaches (Chain.cache .perpetual ds) (fun _ => True) (.new state now) session →
        ∀ call operation e after later,
          ((Chain.cache .perpetual ds).perform call session.state operation).alone call.now =
            some (.error e, after, later) →
          (Chain.bottom ds session.state).AfterFailure (Chain.form ds) (Chain.bottom ds after) operation := by
  obtain ⟨custom, -, hnew, rfl⟩ := hbuiltIn.exists_custom hbuild
  let locked := custom ++ (spec.syncedLayers now ++ [⟨.synchronized, Synchronized.free⟩])
  have hlocked : ∀ layer ∈ locked.reverse, layer.New := by
    intro layer hlayer
    rcases List.mem_append.1 (List.mem_reverse.1 hlayer) with hlayer | hlayer
    · exact hnew layer hlayer
    · exact (of_mem_lockedLayers hlayer).1
  have haccounted : Chain.Always (fun _ => True) (.empty spec.id) (custom ++ spec.standardLayers now).reverse
      ((Chain.cache .perpetual _).Accounted (Chain.bottom _)
        (Chain.form ((custom ++ spec.standardLayers now).reverse.map Layer.kind))) := by
    cases hblocking : spec.blocking with
    | false =>
      have hlayers : custom ++ spec.standardLayers now = locked := by simp [standardLayers, locked, hblocking]
      rw [hlayers]
      exact Chain.always_accounted hlocked
    | true =>
      have hlayers : (custom ++ spec.standardLayers now).reverse =
          ⟨.blocking, Blocking.empty spec.blockingTimeout⟩ :: locked.reverse := by
        simp [standardLayers, locked, hblocking]
      rw [hlayers]
      exact Chain.always_accounted_blocking hlocked spec.blockingTimeout
  exact ⟨_, _, rfl, fun session hreaches => haccounted.reaches hreaches⟩

/-- One value is kept, as a text. -/
def keepsOneText : Spec .nothing :=
  { Spec.new "users" with
    decorators := [.decorator .serialized, .decorator .lru]
    size := some 1 }

/-- The layers of that cache. -/
def oneTextLayers : List (Layer .nothing) :=
  [⟨.synchronized, Synchronized.free⟩, ⟨.logging, Logging.empty⟩, ⟨.lru, Lru.mk .empty ⟨1, by decide⟩⟩,
    ⟨.serialized, Serialized.mk⟩]

/-- A value is put into it. -/
def withValue (v : Json) : Session (Chain .perpetual (oneTextLayers.map Layer.kind)) Outcome :=
  .performAll (Chain.cache .perpetual _) 7 [(1, .put "k" v)]
    (.new (Chain.ofLayers (.empty "users") oneTextLayers) 0)

/-- The storage beneath it then. -/
def keptValue (v : Json) : Perpetual :=
  (Perpetual.empty "users").insert "k" (Serialized.encode v)

lemma reaches_withValue (v : Json) : Session.Reaches (Chain.cache .perpetual _) (fun _ => True)
    (.new (Chain.ofLayers (.empty "users") oneTextLayers) 0) (withValue v) :=
  Session.reaches_performAll _ 7 [(1, .put "k" v)] _ (by simp [Operation.Puts])

section

variable {v : Json} {reason : String} {p : Perpetual}

/-- The removal of a value that is not read back fails when its text is gone. -/
lemma remove_serialized (h : Json.read v.print = .error reason) (call : Call) {key : String}
    (hkey : p.get? key = some (Serialized.encode v)) :
    (Serialized.around Perpetual.cache).remove call key (Serialized.mk, p) =
      (.error (.serialization p.id reason), Serialized.mk, p.erase key) := by
  rw [← Serialized.decodeFound_of_error p.id h, ← hkey]
  rfl

lemma remove_withValue (h : Json.read v.print = .error reason) :
    ∃ e after, ((Chain.cache .perpetual _).perform (.at 7 2) (withValue v).state (.remove "k")).alone 2 =
      some (.error e, after, 2) ∧ (Chain.bottom _ after).keys = [] := by
  have hrun : ((Chain.cache .perpetual _).perform (.at 7 2) (withValue v).state (.remove "k")).alone 2 =
      let removed := (Serialized.around Perpetual.cache).remove (.at 7 2) "k" (Serialized.mk, keptValue v)
      some (removed.1.map .removed,
        (Synchronized.free, Logging.empty, Lru.mk .empty ⟨1, by decide⟩, removed.2), 2) := rfl
  rw [remove_serialized h _ rfl] at hrun
  exact ⟨_, _, hrun, rfl⟩

/-- A second key is stored before the first one makes room for it. -/
lemma put_withValue (h : Json.read v.print = .error reason) :
    ∃ e after, ((Chain.cache .perpetual _).perform (.at 7 2) (withValue v).state (.put "j" .null)).alone 2 =
      some (.error e, after, 2) ∧ (Chain.bottom _ after).keys = ["j"] := by
  have hrun : ((Chain.cache .perpetual _).perform (.at 7 2) (withValue v).state (.put "j" .null)).alone 2 =
      let evicted := (Serialized.around Perpetual.cache).removeAll (Call.next (.at 7 2)) ["k"]
        (Serialized.mk, (keptValue v).insert "j" (Serialized.encode .null))
      some (evicted.1.map fun () => .stored,
        (Synchronized.free, Logging.empty, Lru.mk ⟨["j"]⟩ ⟨1, by decide⟩, evicted.2), 2) := rfl
  rw [Cache.removeAll, remove_serialized h _ rfl] at hrun
  exact ⟨_, _, hrun, rfl⟩

end

/-- A value is lost that is nested too deep to be read back: a second key takes its place, and its put
fails. -/
theorem effect_of_failure_keepsOneText :
    ∃ (ds : List (DecoratorKind .nothing)) (state : Chain .perpetual ds) (session : Session _ Outcome)
      (e : CacheError) (after : Chain .perpetual ds),
      keepsOneText.build 0 = .ok ⟨.perpetual, ds, state⟩ ∧
      Session.Reaches (Chain.cache .perpetual ds) (fun _ => True) (.new state 0) session ∧
      ((Chain.cache .perpetual ds).perform (.at 7 2) session.state (.put "j" .null)).alone 2 =
        some (.error e, after, 2) ∧
      (Chain.bottom ds session.state).AfterFailure (Chain.form ds) (Chain.bottom ds after) (.put "j" .null) := by
  have hbuild : keepsOneText.build 0 = .ok (.ofLayers (.empty "users") oneTextLayers) := rfl
  have hbuiltIn : keepsOneText.BuiltIn := ⟨nofun, nofun⟩
  obtain ⟨reason, hreason⟩ := Json.read_print_nested (n := 128) (by decide) .null
  obtain ⟨e, after, hfails, -⟩ := put_withValue hreason
  obtain ⟨ds, state, hstack, heffect⟩ := effect_of_failure hbuiltIn hbuild
  cases hstack
  have hreaches := reaches_withValue (.nested 128 .null)
  exact ⟨_, _, _, e, after, hbuild, hreaches, hfails,
    heffect _ hreaches (.at 7 2) (.put "j" .null) e after 2 hfails⟩

/-- The removal of such a value fails, and yet the entry is gone. It also is when the put of a second key
fails, which leaves the new entry. -/
theorem failure_loses_entry :
    ∃ (ds : List (DecoratorKind .nothing)) (state : Chain .perpetual ds) (session : Session _ Outcome),
      keepsOneText.build 0 = .ok ⟨.perpetual, ds, state⟩ ∧
      Session.Reaches (Chain.cache .perpetual ds) (fun _ => True) (.new state 0) session ∧
      (Chain.bottom ds session.state).keys = ["k"] ∧
      (∃ e after, ((Chain.cache .perpetual ds).perform (.at 7 2) session.state (.remove "k")).alone 2 =
        some (.error e, after, 2) ∧ (Chain.bottom ds after).keys = []) ∧
      ∃ e after, ((Chain.cache .perpetual ds).perform (.at 7 2) session.state (.put "j" .null)).alone 2 =
        some (.error e, after, 2) ∧ (Chain.bottom ds after).keys = ["j"] := by
  obtain ⟨reason, hreason⟩ := Json.read_print_nested (n := 128) (by decide) .null
  exact ⟨_, _, _, rfl, reaches_withValue _, rfl, remove_withValue hreason, put_withValue hreason⟩

end Spec

end LayeredCache
