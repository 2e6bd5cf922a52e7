import LayeredCache.Proofs.Assembly.BoundedAge
import LayeredCache.Proofs.Assembly.HandedBack
import LayeredCache.Proofs.Concurrency.HandOff

/-!
# Values that are handed over

A thread that holds a key after a lookup that found nothing ends the wait of the others for the key. If it puts
a value, each of them gets the value that the cache hands back for it. If it removes the key, or gives it up
while nothing is stored under it, one of the others has to take its place (`Spec.hands_over`).
-/

namespace LayeredCache

section

variable {σ : Type} {cache : Cache σ} {view : View σ} {ok : σ → Prop}

namespace Cache.Stores

/-- What is known of the state, at any instant, is kept by every operation. -/
lemma keeps (h : cache.Stores view (fun _ => True) fun _ s => ok s) : cache.Keeps (fun _ => True) ok := by
  constructor
  · exact fun call key value _ hs => (h.put call key value trivial hs).1
  · intro s call key hs
    obtain ⟨found, s', hget, hs', -⟩ := h.get call key trivial hs
    rw [hget]
    exact hs'
  · exact fun call key hs => (h.remove call key trivial hs).1
  · intro s call hs
    obtain ⟨s', hclear, hs', -⟩ := h.clear call trivial hs
    rw [hclear]
    exact hs'
  · intro s call hs
    obtain ⟨n, s', hsize, hs', -⟩ := h.size call trivial hs
    rw [hsize]
    exact hs'
  · exact fun call key hs => (h.release call key trivial hs).1

/-- As long as nothing is cleared, the entry of a key decides what its lookups give. -/
lemma gives (h : cache.Stores view (fun _ => True) fun _ s => ok s) (hsteady : view.Steady) {key : String}
    {entry found : Option Json} (hanswer : view.answer entry = some found) :
    cache.Gives (fun s => ok s ∧ view.entry key s = entry) key found := by
  rintro thread now s ⟨hs, hentry⟩
  obtain ⟨outcome, s', hget, hs', hlooked⟩ := h.get (.at thread now) key trivial hs
  obtain ⟨houtcome, hsame⟩ := hlooked.fresh (hsteady _ s)
  rw [hentry, hanswer] at houtcome
  obtain ⟨found', rfl, hfound⟩ : ∃ found', outcome = .ok found' ∧ some found' = some found := by
    cases outcome with
    | error e => cases houtcome
    | ok found' => exact ⟨found', rfl, houtcome⟩
  obtain rfl := Option.some.inj hfound
  exact ⟨s', hget, hs', (hsame.entry key).trans hentry⟩

end Cache.Stores

namespace Blocking.Stands

variable {threads waiters : List Nat} {key : String} {thread : Nat} {s : Shared σ}

/-- A put that succeeds ends the wait of all others. -/
lemma endsIn_put (hstores : cache.Stores view (fun _ => True) fun _ s => ok s) (hsteady : view.Steady)
    (h : Stands threads key waiters (some thread) s) (hmem : thread ∈ threads) (hthread : thread ∉ waiters)
    (hnodup : waiters.Nodup) (hsub : waiters ⊆ threads) (hok : ok s.inner) {value found : Json}
    (hback : view.back (view.form value) = some found) {now : Nat}
    (hput : (cache.put (.at thread now) key value s.inner).1 = .ok ()) :
    EndsIn (Turn cache threads) (Served threads key waiters found s)
      ((s.goTo thread (.writing key (.put value))).store cache thread now key (.put value)) := by
  have hanswer : view.answer (some (view.form value)) = some (some found) := congrArg (Option.map some) hback
  obtain ⟨hok', hstored⟩ := hstores.put (.at thread now) key value trivial hok
  have hwriting := h.write hthread (.put value)
  have hfree := (hwriting.store hthread cache now (.put value)).giveUp hthread
  exact hwriting.endsIn_of_store hmem hthread
    (endsIn_found (hstores.gives hsteady hanswer) hfree hnodup hsub ⟨hok', hstored.steady hsteady hput⟩)

/-- A removal makes one of them the next holder. -/
lemma endsIn_remove (hstores : cache.Stores view (fun _ => True) fun _ s => ok s) (hsteady : view.Steady)
    (h : Stands threads key waiters (some thread) s) (hmem : thread ∈ threads) (hthread : thread ∉ waiters)
    (hwaiters : waiters ≠ []) (hnodup : waiters.Nodup) (hsub : waiters ⊆ threads) (hok : ok s.inner) :
    EndsIn (Turn cache threads) (PassedOn threads key waiters s) (s.goTo thread (.writing key .remove)) := by
  have hwriting := h.write hthread .remove
  have hturn (s' : Shared σ) : Turn cache threads (s.goTo thread (.writing key .remove)) s' ↔ ∃ now,
      s' = (s.goTo thread (.writing key .remove)).store cache thread now key .remove :=
    hwriting.turn_writing_iff hmem (phase_goTo ..)
  refine .onward ⟨_, (hturn _).2 ⟨0, rfl⟩⟩ fun s' hs' => ?_
  obtain ⟨now, rfl⟩ := (hturn s').1 hs'
  obtain ⟨hok', hremoved⟩ := hstores.remove (.at thread now) key trivial hok
  have hfree := (hwriting.store hthread cache now .remove).giveUp hthread
  exact hwriting.endsIn_of_store hmem hthread
    (endsIn_missed (hstores.gives hsteady rfl) hfree hwaiters hnodup hsub ⟨hok', hremoved.gone⟩)

/-- So does a release while nothing is stored under the key. -/
lemma endsIn_release (hstores : cache.Stores view (fun _ => True) fun _ s => ok s) (hsteady : view.Steady)
    (h : Stands threads key waiters (some thread) s) (hthread : thread ∉ waiters) (hwaiters : waiters ≠ [])
    (hnodup : waiters.Nodup) (hsub : waiters ⊆ threads) (hok : ok s.inner) (hnone : view.entry key s.inner = none) :
    EndsIn (Turn cache threads) (PassedOn threads key waiters s) (s.giveUp thread key) :=
  endsIn_missed (hstores.gives hsteady rfl) (h.giveUp hthread) hwaiters hnodup hsub ⟨hok, hnone⟩

end Blocking.Stands

end

variable {E : Extension}

/-- What a chain stores is what the storage beneath it stores. -/
lemma Chain.entry_view (ds : List (DecoratorKind E)) (key : String) (s : Chain .perpetual ds) :
    (view ds).entry key s = (bottom ds s).get? key := by
  induction ds with
  | nil => rfl
  | cons d ds ih => cases d <;> exact ih s.2

namespace Spec

variable {spec : Spec E} {start : Nat} {stack : Stack E}

/-- What is built with blocking is a chain of other layers under it. -/
lemma BuiltIn.exists_stores_blocking (hbuiltIn : spec.BuiltIn) (hbuild : spec.build start = .ok stack)
    (hblocking : spec.blocking = true) (hinterval : spec.clearInterval = none) (hscheduled : .scheduled ∉ spec.kinds) :
    ∃ (ds : List (DecoratorKind E)) (state : Chain .perpetual ds) (ok : Chain .perpetual ds → Prop),
      stack = ⟨.perpetual, .blocking :: ds, (Blocking.empty spec.blockingTimeout, state)⟩ ∧
      (Chain.cache .perpetual ds).Stores (Chain.view ds) (fun _ => True) (fun _ s => ok s) ∧ ok state ∧
      (Chain.view ds).Steady := by
  obtain ⟨custom, hkinds, hnew, rfl⟩ := hbuiltIn.exists_custom hbuild
  have hlayers : (custom ++ spec.standardLayers start).reverse =
      ⟨.blocking, Blocking.empty spec.blockingTimeout⟩ :: spec.lockedLayers start custom := by
    simp [standardLayers, lockedLayers, hblocking]
  obtain ⟨ok, hstores, hfirst⟩ := Chain.exists_stores (p := .empty spec.id) (new_of_mem_lockedLayers hnew)
  rw [hlayers]
  exact ⟨_, _, ok, rfl, hstores, hfirst,
    Chain.steady_view (scheduled_notMem_lockedLayers hinterval start (hkinds ▸ hscheduled))⟩

open Blocking in
/-- Whatever threads have done to a built cache with blocking, without a timeout and without a layer that clears:
a thread holds a key after a lookup that found nothing, others wait for the key, and nobody begins anything but
the thread. When its put has succeeded, every waiter gets the same value in the end, and nobody holds the key. The
value is the one that was put, unless a layer serializes and reads something else in its text. When the thread
removes the key, or releases it while nothing is stored under it, one waiter finds nothing and holds the key in the
end, and the others wait on. -/
theorem hands_over (hbuiltIn : spec.BuiltIn) (hbuild : spec.build start = .ok stack)
    (hblocking : spec.blocking = true) (htimeout : spec.blockingTimeout = none) (hinterval : spec.clearInterval = none)
    (hscheduled : .scheduled ∉ spec.kinds) :
    ∃ (ds : List (DecoratorKind E)) (state : Chain .perpetual ds),
      stack = ⟨.perpetual, .blocking :: ds, (Blocking.empty none, state)⟩ ∧
      ∀ s, Steps (Chain.cache .perpetual ds) (.start none state) s → ∀ thread key waiters,
        s.blocking.holder? key = some thread → s.phase thread = .idle →
        (∀ other ∈ waiters, s.phase other = .asking key none) → waiters.Nodup →
        (∀ value : Json, value.Shallow → ∃ found,
          (.serialized ∉ ds ∨ value.FloatsReadBack → found = value) ∧
          (.serialized ∈ ds → Json.read value.print = .ok found) ∧
          (∀ s', Turn (Chain.cache .perpetual ds) (thread :: waiters) (s.goTo thread (.writing key (.put value))) s' ↔
            ∃ now, s' = (s.goTo thread (.writing key (.put value))).store (Chain.cache .perpetual ds) thread now key
              (.put value)) ∧
          ∀ now, ((Chain.cache .perpetual ds).put (.at thread now) key value s.inner).1 = .ok () →
            EndsIn (Turn (Chain.cache .perpetual ds) (thread :: waiters))
              (Served (thread :: waiters) key waiters found s)
              ((s.goTo thread (.writing key (.put value))).store (Chain.cache .perpetual ds) thread now key
                (.put value))) ∧
        (waiters ≠ [] →
          EndsIn (Turn (Chain.cache .perpetual ds) (thread :: waiters)) (PassedOn (thread :: waiters) key waiters s)
            (s.goTo thread (.writing key .remove))) ∧
        (waiters ≠ [] → (Chain.bottom ds s.inner).get? key = none →
          EndsIn (Turn (Chain.cache .perpetual ds) (thread :: waiters)) (PassedOn (thread :: waiters) key waiters s)
            (s.giveUp thread key)) := by
  obtain ⟨ds, state, ok, rfl, hstores, hfirst, hsteady⟩ :=
    hbuiltIn.exists_stores_blocking hbuild hblocking hinterval hscheduled
  refine ⟨ds, state, by rw [htimeout], fun s hsteps thread key waiters hheld hidle hwaiting hnodup => ?_⟩
  have hok : ok s.inner := holds_of_steps hstores.keeps hfirst hsteps
  have hstands := Stands.of_waiting hheld hwaiting
  -- a waiter is in the middle of a lookup
  have hthread : thread ∉ waiters := fun hmem => by
    have hasking := hwaiting thread hmem
    rw [hidle] at hasking
    cases hasking
  have hmem : thread ∈ thread :: waiters := List.mem_cons_self
  have hsub : waiters ⊆ thread :: waiters := List.subset_cons_self thread waiters
  refine ⟨fun value hvalue => ?_, fun hwaiters => ?_, fun hwaiters hnone => ?_⟩
  · obtain ⟨found, hback⟩ := Chain.exists_back_form ds hvalue
    refine ⟨found, fun hplain => ?_, fun hserialized => Chain.read_of_back_form hserialized hback, fun s' => ?_,
      fun now hput => ?_⟩
    · exact Option.some.inj (hback.symm.trans (Chain.back_form_self hvalue hplain))
    · exact (hstands.write hthread _).turn_writing_iff hmem (phase_goTo ..)
    · exact hstands.endsIn_put hstores hsteady hmem hthread hnodup hsub hok hback hput
  · exact hstands.endsIn_remove hstores hsteady hmem hthread hwaiters hnodup hsub hok
  · rw [← Chain.entry_view] at hnone
    exact hstands.endsIn_release hstores hsteady hthread hwaiters hnodup hsub hok hnone

/-- One thread computes what others wait for. -/
def computesOnce : Spec .nothing :=
  { Spec.new "users" with blocking := true }

/-- The layers under blocking. -/
def onceLayers : List (Layer .nothing) :=
  [⟨.synchronized, Synchronized.free⟩, ⟨.logging, Logging.empty⟩, ⟨.lru, Lru.empty⟩]

lemma build_computesOnce : computesOnce.build 0 = .ok (.ofLayers (.empty "users")
    (⟨.blocking, Blocking.empty none⟩ :: onceLayers)) := rfl

open Blocking in
/-- A thread that found nothing puts a value, and another one that waits for it gets it. It could also remove the key
or release it, and the other one would have to compute the value. -/
theorem hands_over_computesOnce :
    ∃ (ds : List (DecoratorKind .nothing)) (state : Chain .perpetual ds) (s : Shared (Chain .perpetual ds)),
      computesOnce.build 0 = .ok ⟨.perpetual, .blocking :: ds, (Blocking.empty none, state)⟩ ∧
      Steps (Chain.cache .perpetual ds) (.start none state) s ∧ s.blocking.holder? "k" = some 1 ∧
      s.phase 1 = .idle ∧ s.phase 2 = .asking "k" none ∧
      ((Chain.cache .perpetual ds).put (.at 1 1) "k" .null s.inner).1 = .ok () ∧
      EndsIn (Turn (Chain.cache .perpetual ds) [1, 2]) (Served [1, 2] "k" [2] .null s)
        ((s.goTo 1 (.writing "k" (.put .null))).store (Chain.cache .perpetual ds) 1 1 "k" (.put .null)) ∧
      EndsIn (Turn (Chain.cache .perpetual ds) [1, 2]) (PassedOn [1, 2] "k" [2] s)
        (s.goTo 1 (.writing "k" .remove)) ∧
      EndsIn (Turn (Chain.cache .perpetual ds) [1, 2]) (PassedOn [1, 2] "k" [2] s) (s.giveUp 1 "k") := by
  have hbuiltIn : computesOnce.BuiltIn := ⟨nofun, nofun⟩
  obtain ⟨ds, state, hstack, hhands⟩ := hands_over hbuiltIn build_computesOnce rfl rfl rfl (by decide)
  cases hstack
  have hget : (Chain.cache .perpetual (onceLayers.map Layer.kind)).get (.at 1 0) "k"
      (Chain.ofLayers (.empty "users") onceLayers) = .done (.ok none)
      (Synchronized.free, (Logging.empty.record (.ok none)).2, Lru.empty, Perpetual.empty "users") := rfl
  obtain ⟨s, hsteps, hinner, hheld, hidle, hasking⟩ := exists_waiting (show 2 ≠ 1 by decide) hget
  obtain ⟨hput, hremove, hrelease⟩ := hhands s hsteps 1 "k" [2] hheld hidle (by simpa using hasking) (by decide)
  obtain ⟨found, hself, -, -, hends⟩ := hput .null Json.shallow_null
  obtain rfl := hself (.inl (by decide))
  have hstored : ((Chain.cache .perpetual (onceLayers.map Layer.kind)).put (.at 1 1) "k" .null s.inner).1 = .ok () := by
    rw [hinner]
    rfl
  have hnone : (Chain.bottom (onceLayers.map Layer.kind) s.inner).get? "k" = none := by
    rw [hinner]
    rfl
  exact ⟨_, _, s, build_computesOnce, hsteps, hheld, hidle, hasking, hstored, hends 1 hstored,
    hremove (by decide), hrelease (by decide) hnone⟩

/-- The value is kept as a text. -/
def computesText : Spec .nothing :=
  { Spec.new "users" with
    readWrite := true
    blocking := true }

/-- The layers under blocking. -/
def onceTextLayers : List (Layer .nothing) :=
  [⟨.synchronized, Synchronized.free⟩, ⟨.logging, Logging.empty⟩, ⟨.serialized, Serialized.mk⟩, ⟨.lru, Lru.empty⟩]

lemma build_computesText : computesText.build 0 = .ok (.ofLayers (.empty "users")
    (⟨.blocking, Blocking.empty none⟩ :: onceTextLayers)) := rfl

/-- A layer of an application that takes no values. -/
def withReadOnly : Extension where
  Storage := Empty
  Decorator := Unit
  storage := nofun
  decorator _ :=
    { name := "app::ReadOnly"
      State := Unit
      around := fun inner => { Cache.forward Unit inner with put := fun _ _ _ s => (.ok (), s) }
      attributes := .none
      make := fun _ => .ok () }

/-- Nothing is ever stored. -/
def computesInVain : Spec withReadOnly :=
  { Spec.new "users" with
    decorators := [.decorator (.added ())]
    blocking := true }

open Blocking in
/-- A thread that found nothing has put the value, and another one that waited for it gets the outcome. -/
def GivesWaiter (spec : Spec E) (value : Json) (outcome : Found) : Prop :=
  ∃ (ds : List (DecoratorKind E)) (state : Chain .perpetual ds) (s s' : Shared (Chain .perpetual ds)),
    spec.build 0 = .ok ⟨.perpetual, .blocking :: ds, (Blocking.empty none, state)⟩ ∧
    Steps (Chain.cache .perpetual ds) (.start none state) s ∧ s.blocking.holder? "k" = some 1 ∧
    s.phase 1 = .idle ∧ s.phase 2 = .asking "k" none ∧
    ((Chain.cache .perpetual ds).put (.at 1 1) "k" value s.inner).1 = .ok () ∧
    Relation.ReflTransGen (Turn (Chain.cache .perpetual ds) [1, 2])
      ((s.goTo 1 (.writing "k" (.put value))).store (Chain.cache .perpetual ds) 1 1 "k" (.put value)) s' ∧
    s'.returns = (2, "k", outcome) :: s.returns

open Blocking in
lemma computesText_givesWaiter {v w : Json} (hread : Json.read v.print = .ok w) :
    computesText.GivesWaiter v (.ok (some w)) := by
  have hbuiltIn : computesText.BuiltIn := ⟨nofun, nofun⟩
  obtain ⟨ds, state, ok, hstack, hstores, hfirst, hsteady⟩ :=
    hbuiltIn.exists_stores_blocking build_computesText rfl rfl (by decide)
  cases hstack
  have hget : (Chain.cache .perpetual (onceTextLayers.map Layer.kind)).get (.at 1 0) "k"
      (Chain.ofLayers (.empty "users") onceTextLayers) = .done (.ok none)
      (Synchronized.free, (Logging.empty.record (.ok none)).2, Serialized.mk, Lru.empty, Perpetual.empty "users") :=
    rfl
  obtain ⟨s, hsteps, hinner, hheld, hidle, hasking⟩ := exists_waiting (show 2 ≠ 1 by decide) hget
  have hput : ((Chain.cache .perpetual (onceTextLayers.map Layer.kind)).put (.at 1 1) "k" v s.inner).1 = .ok () := by
    rw [hinner]
    rfl
  have hback : (Chain.view (onceTextLayers.map Layer.kind)).back
      ((Chain.view (onceTextLayers.map Layer.kind)).form v) = some w := by
    rw [Chain.back_form, if_pos (by decide), hread]
    rfl
  have hstands : Stands [1, 2] "k" [2] (some 1) s := .of_waiting hheld (by simpa using hasking)
  obtain ⟨s', hrun, -, returned, hreturns, hperm⟩ := (hstands.endsIn_put hstores hsteady (by decide) (by decide)
    (by decide) (by decide) (holds_of_steps hstores.keeps hfirst hsteps) hback hput).exists_run
  obtain rfl := List.perm_singleton.1 hperm
  exact ⟨_, _, s, s', build_computesText, hsteps, hheld, hidle, hasking, hput, hrun, hreturns⟩

open Blocking in
lemma computesInVain_givesWaiter (v : Json) : computesInVain.GivesWaiter v (.ok none) := by
  let ds : List (DecoratorKind withReadOnly) := [.synchronized, .logging, .added ()]
  let empty (counts : Logging) : Chain .perpetual ds := (Synchronized.free, counts, (), Perpetual.empty "users")
  have hgives : (Chain.cache .perpetual ds).Gives (fun s => ∃ counts, s = empty counts) "k" none := by
    rintro thread now s ⟨counts, rfl⟩
    exact ⟨empty (counts.record (.ok none)).2, rfl, _, rfl⟩
  have hget : (Chain.cache .perpetual ds).get (.at 1 0) "k" (empty Logging.empty) =
      .done (.ok none) (empty (Logging.empty.record (.ok none)).2) := rfl
  obtain ⟨s, hsteps, hinner, hheld, hidle, hasking⟩ := exists_waiting (show 2 ≠ 1 by decide) hget
  have hstands : Stands [1, 2] "k" [2] (some 1) s := .of_waiting hheld (by simpa using hasking)
  have hwriting := hstands.write (by decide) (.put v)
  have hends := hwriting.endsIn_of_store (by decide) (by decide) (Stands.endsIn_missed hgives
    ((hwriting.store (by decide) (Chain.cache .perpetual ds) 1 (.put v)).giveUp (by decide)) (by decide) (by decide)
    (by decide) ⟨_, hinner⟩)
  obtain ⟨s', hrun, thread, hthread, hreturns, -⟩ := hends.exists_run
  obtain rfl := List.mem_singleton.1 hthread
  exact ⟨ds, empty Logging.empty, s, s', rfl, hsteps, hheld, hidle, hasking, rfl, hrun, hreturns⟩

/-- If a layer keeps texts, a waiter can get another double than the one that was put, and if a layer of an
application drops what it is given, a waiter gets nothing. -/
theorem hands_over_other : (nearby 5444517870735016).Shallow ∧
    nearby 5444517870735016 ≠ nearby 5444517870735015 ∧
    computesText.GivesWaiter (nearby 5444517870735016) (.ok (some (nearby 5444517870735015))) ∧
    Json.null.Shallow ∧ computesInVain.GivesWaiter .null (.ok none) := by
  refine ⟨⟨⟨by decide, by decide, by decide, .inl (by decide)⟩, by decide⟩, by simp [nearby],
    computesText_givesWaiter read_print_nearby, Json.shallow_null, computesInVain_givesWaiter .null⟩

end Spec

end LayeredCache
