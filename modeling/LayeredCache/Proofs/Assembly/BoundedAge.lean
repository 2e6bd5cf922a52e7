import LayeredCache.Proofs.Assembly.ChainViews

/-!
# How old a value can be

With a clear interval, a lookup finds a value only within the interval after it was put, as long as the key was
neither put again nor removed and nothing was cleared (`get_within_interval`). What it finds is the value that
was put, or what is read from the text of that value if a layer serializes. The two can differ: the reader does not
always get back to the floating-point number that was printed. And a layer of an application can find values of its
own (`finds_unput`).
-/

namespace LayeredCache.Spec

variable {E : Extension} {spec : Spec E} {start interval : Nat}

/-- With a clear interval, only layers that keep every entry come around the layer that clears. -/
lemma exists_lockedLayers_eq (hinterval : spec.clearInterval = some interval) (start : Nat) (custom : List (Layer E)) :
    ∃ outer, (∀ layer ∈ outer, layer.Neutral) ∧ spec.lockedLayers start custom =
      outer ++ ⟨.scheduled, Scheduled.mk interval start⟩ :: custom.reverse := by
  rw [lockedLayers, syncedLayers, scheduledLayers, hinterval]
  cases spec.readWrite with
  | false =>
    refine ⟨[⟨.synchronized, Synchronized.free⟩, ⟨.logging, Logging.empty⟩], ?_, by simp⟩
    simp only [List.forall_mem_cons]
    exact ⟨.synchronized, .logging, List.forall_mem_nil _⟩
  | true =>
    refine ⟨[⟨.synchronized, Synchronized.free⟩, ⟨.logging, Logging.empty⟩, ⟨.serialized, Serialized.mk⟩], ?_, by simp⟩
    simp only [List.forall_mem_cons]
    exact ⟨.synchronized, .logging, .serialized, List.forall_mem_nil _⟩

/-- What is known of a built cache with a clear interval through its view. -/
lemma BuiltIn.exists_performs {stack : Stack E} (hbuiltIn : spec.BuiltIn) (hbuild : spec.build start = .ok stack)
    (hinterval : spec.clearInterval = some interval) :
    ∃ (ds : List (DecoratorKind E)) (state : Chain .perpetual ds) (ok : Nat → Chain .perpetual ds → Prop),
      stack = ⟨.perpetual, ds, state⟩ ∧ (Chain.cache .perpetual ds).Performs (Chain.view ds) ok ∧
      ok start state ∧ (∀ n s, ok n s → Chain.Timed interval n ds s) ∧ (Chain.view ds).Bare state := by
  obtain ⟨custom, -, hnew, hstack⟩ := hbuiltIn.exists_locked hbuild
  obtain ⟨outer, houter, hlayers⟩ := exists_lockedLayers_eq hinterval start custom
  obtain ⟨ok, hstores, hfirst, htimed⟩ := Chain.exists_timed (p := .empty spec.id) interval start
    (fun layer hlayer => hnew layer (List.mem_reverse.1 hlayer)) houter
  rw [hlayers] at hstack
  rcases hstack with rfl | rfl
  · exact ⟨_, _, ok, rfl, hstores.performs fun _ _ => rfl, hfirst, htimed, fun key => Chain.entry_ofLayers key⟩
  · exact ⟨_, _, _, rfl, Blocking.performs hstores fun _ _ => rfl, hfirst, fun n s hs => htimed n s.2 hs,
      fun key => Chain.entry_ofLayers key⟩

/-- Whatever threads have done to a built cache with a clear interval, one operation after another: a lookup that
finds a value finds that of the last put of its key, which is no longer ago than the interval. Since then the key
was not removed, and nothing was cleared, by an operation or by a layer. -/
theorem get_within_interval {stack : Stack E} (hbuiltIn : spec.BuiltIn) (hbuild : spec.build start = .ok stack)
    (hinterval : spec.clearInterval = some interval) :
    ∃ (ds : List (DecoratorKind E)) (state : Chain .perpetual ds), stack = ⟨.perpetual, ds, state⟩ ∧
      ∀ log s last, (Chain.cache .perpetual ds).History (fun _ => True) Json.Shallow state start log s last →
        ∀ (after : List (Event _)) e before, log = after ++ e :: before →
        ∀ key v, e.operation = .get key → e.outcome = .ok (.found (some v)) →
        ∃ recent put older value, before = recent ++ put :: older ∧
          (Chain.view ds).LastPut key value (e :: recent) put ∧
          e.now ≤ put.now + interval ∧
          (.serialized ∉ ds ∨ value.FloatsReadBack → v = value) ∧
          (.serialized ∈ ds → Json.read value.print = .ok v) := by
  obtain ⟨ds, state, ok, rfl, hperforms, hfirst, htimed, hbare⟩ := hbuiltIn.exists_performs hbuild hinterval
  refine ⟨ds, state, rfl, fun log s last hhistory after e before hlog key v hget hfound => ?_⟩
  obtain ⟨recent, put, older, value, hbefore, hlast, hvalue, hback, hput, s', hclears, hfresh, hs'⟩ :=
    hhistory.found hperforms hfirst hbare (fun value hvalue => Chain.exists_back_form ds hvalue) hlog hget hfound
  refine ⟨recent, put, older, value, hbefore, hlast, ?_, ?_, fun hmem => Chain.read_of_back_form hmem hback⟩
  · -- the last clear was not later than the put, and it is the same at the lookup
    obtain ⟨lastClear, others, heq, hle, -⟩ := htimed _ _ hput
    obtain ⟨lastClear', others', heq', -, hdue⟩ := htimed _ _ hs'
    obtain ⟨rfl, -⟩ := List.cons.inj (heq'.symm.trans (hclears.trans heq))
    exact Nat.le_trans (hdue _ _ hfresh) (Nat.add_le_add_right hle _)
  · intro hplain
    exact Option.some.inj (hback.symm.trans (Chain.back_form_self hvalue hplain))

/-! ## A cache that is cleared every hour -/

/-- Texts of values are kept, for an hour at most. -/
def keepsAnHour : Spec .nothing :=
  { Spec.new "users" with
    clearInterval := some (3600000 * nanosPerMilli)
    readWrite := true }

/-- Its layers. -/
def hourLayers : List (Layer .nothing) :=
  [⟨.synchronized, Synchronized.free⟩, ⟨.logging, Logging.empty⟩, ⟨.serialized, Serialized.mk⟩,
    ⟨.scheduled, Scheduled.mk (3600000 * nanosPerMilli) 0⟩, ⟨.lru, Lru.empty⟩]

/-- Its operations. -/
abbrev hourCache : Cache (Chain .perpetual (hourLayers.map Layer.kind)) :=
  Chain.cache .perpetual _

/-- One thread puts a value into it, and another one looks it up. -/
lemma history_keepsAnHour {v w : Json} (hv : v.Shallow) (hread : Json.read v.print = .ok w) :
    ∃ stored found, hourCache.History (fun _ => True) Json.Shallow (Chain.ofLayers (.empty "users") hourLayers) 0
      [⟨2, 2, .get "k", .ok (.found (some w)), found⟩, ⟨1, 1, .put "k" v, .ok .stored, stored⟩] found 2 := by
  let first := Chain.ofLayers (.empty "users") hourLayers
  let stored := (hourCache.put (.at 1 1) "k" v first).2
  let found : Chain .perpetual (hourLayers.map Layer.kind) :=
    (Synchronized.free, (Logging.empty.record (.ok (some w))).2, stored.2.2)
  have hput : (hourCache.perform (.at 1 1) first (.put "k" v)).alone 1 = some (.ok .stored, stored, 1) := rfl
  have hget : (hourCache.perform (.at 2 2) stored (.get "k")).alone 2 = some (.ok (.found (some w)), found, 2) := by
    have hrun : (hourCache.get (.at 2 2) "k" stored).alone 2 =
        let (outcome, counted) := Logging.empty.record
          (Serialized.decodeFound "users" (.ok (some (Serialized.encode v))))
        some (outcome, (Synchronized.free, counted, stored.2.2), 2) := rfl
    rw [Serialized.decodeFound_of_read "users" hread] at hrun
    rw [Cache.perform, Action.alone_map, hrun]
    rfl
  exact ⟨stored, found, .perform (.perform .new (Nat.zero_le 1) trivial hv hput) (Nat.le_succ 1) trivial trivial hget⟩

/-- The build of that cache. -/
lemma build_keepsAnHour : keepsAnHour.build 0 = .ok (.ofLayers (.empty "users") hourLayers) := rfl

/-- A text that was put is found within the hour. -/
theorem get_within_interval_keepsAnHour :
    ∃ (ds : List (DecoratorKind .nothing)) (state : Chain .perpetual ds) (e put : Event (Chain .perpetual ds)),
      keepsAnHour.build 0 = .ok ⟨.perpetual, ds, state⟩ ∧
      (Chain.cache .perpetual ds).History (fun _ => True) Json.Shallow state 0 [e, put] e.after 2 ∧
      e.operation = .get "k" ∧ e.outcome = .ok (.found (some (.string "v"))) ∧
      (Chain.view ds).LastPut "k" (.string "v") [e] put ∧ e.now ≤ put.now + 3600000 * nanosPerMilli := by
  have hread : Json.read (Json.string "v").print = .ok (.string "v") := Json.read_print (Json.storable_string "v")
  obtain ⟨stored, found, hhistory⟩ := history_keepsAnHour (Json.shallow_string "v") hread
  have hbuiltIn : keepsAnHour.BuiltIn := ⟨nofun, nofun⟩
  obtain ⟨ds, state, hstack, hage⟩ := get_within_interval hbuiltIn build_keepsAnHour rfl
  cases hstack
  obtain ⟨recent, put, older, value, hbefore, hlast, hle, hself, -⟩ :=
    hage _ _ _ hhistory [] _ _ rfl "k" (.string "v") rfl rfl
  -- the only event before the lookup is the put
  obtain ⟨rfl, rfl⟩ : recent = [] ∧ put = ⟨1, 1, .put "k" (.string "v"), .ok .stored, stored⟩ := by
    cases recent with
    | nil => exact ⟨rfl, (List.cons.inj hbefore).1.symm⟩
    | cons first recent => simp at hbefore
  cases hlast.puts
  exact ⟨_, _, _, _, build_keepsAnHour, hhistory, rfl, rfl, hlast, hle⟩

/-- A double and its neighbours. -/
def nearby (m : Nat) : Json :=
  .float (.finite false m (-132))

lemma render_nearby : Json.render (nearby 5444517870735016) = "1.0000000000000001e-24".toList := by
  decide +kernel

/-- The digits of a double can be read as its neighbour. -/
lemma read_print_nearby : Json.read (nearby 5444517870735016).print = .ok (nearby 5444517870735015) := by
  have hvalue : (Decimal.mk 10000000000000001 (-40)).toBinaryStepwise = .finite false 5444517870735015 (-132) := by
    decide +kernel
  refine Json.read_print_of_readValue ?_
  rw [render_nearby, Json.fuelFor, Json.readValue]
  change Json.floatOf false ⟨10000000000000001, -40⟩ [] = _
  rw [Json.floatOf, hvalue]
  rfl

/-! ## Values that nobody put -/

/-- A lookup at the end of a history has found a value that was never put under the key. -/
def FindsUnput (spec : Spec E) : Prop :=
  ∃ (ds : List (DecoratorKind E)) (state : Chain .perpetual ds) (e : Event (Chain .perpetual ds)) (before : List _)
      (last : Nat) (key : String) (value : Json),
    spec.build 0 = .ok ⟨.perpetual, ds, state⟩ ∧
    (Chain.cache .perpetual ds).History (fun _ => True) Json.Shallow state 0 (e :: before) e.after last ∧
    e.operation = .get key ∧ e.outcome = .ok (.found (some value)) ∧ ∀ put ∈ before, put.operation ≠ .put key value

/-- The double that is found is not the one that was put. -/
lemma findsUnput_keepsAnHour : keepsAnHour.FindsUnput := by
  have hshallow : (nearby 5444517870735016).Shallow := ⟨⟨by decide, by decide, by decide, .inl (by decide)⟩, by decide⟩
  obtain ⟨stored, found, hhistory⟩ := history_keepsAnHour hshallow read_print_nearby
  refine ⟨_, _, _, _, _, "k", _, build_keepsAnHour, hhistory, rfl, rfl, fun put hput => ?_⟩
  obtain rfl := List.mem_singleton.1 hput
  simp [nearby]

/-- A layer of an application that answers every lookup itself. -/
def withAnswers : Extension where
  Storage := Empty
  Decorator := Unit
  storage := nofun
  decorator _ :=
    { name := "app::Answers"
      State := Unit
      around := fun inner => { Cache.forward Unit inner with get := fun _ _ s => .done (.ok (some .null)) s }
      attributes := .none
      make := fun _ => .ok () }

/-- That layer under the one that clears every hour. -/
def answersAnHour : Spec withAnswers :=
  { Spec.new "users" with
    decorators := [.decorator (.added ())]
    clearInterval := some (3600000 * nanosPerMilli) }

/-- Its layers. -/
def answersLayers : List (Layer withAnswers) :=
  [⟨.synchronized, Synchronized.free⟩, ⟨.logging, Logging.empty⟩,
    ⟨.scheduled, Scheduled.mk (3600000 * nanosPerMilli) 0⟩, ⟨.added (), ()⟩]

lemma build_answersAnHour : answersAnHour.build 0 = .ok (.ofLayers (.empty "users") answersLayers) := rfl

/-- The first lookup finds something. -/
lemma findsUnput_answersAnHour : answersAnHour.FindsUnput := by
  let first := Chain.ofLayers (.empty "users") answersLayers
  let found : Chain .perpetual (answersLayers.map Layer.kind) := (Synchronized.free, ⟨1, 0⟩, first.2.2)
  have hget : ((Chain.cache .perpetual _).perform (.at 1 1) first (.get "k")).alone 1 =
      some (.ok (.found (some .null)), found, 1) := rfl
  have hhistory : (Chain.cache .perpetual _).History (fun _ => True) Json.Shallow first 0
      [⟨1, 1, .get "k", .ok (.found (some .null)), found⟩] found 1 :=
    .perform .new (Nat.zero_le 1) trivial trivial hget
  exact ⟨_, first, _, [], 1, "k", .null, build_answersAnHour, hhistory, rfl, rfl, List.forall_mem_nil _⟩

/-- Where a layer keeps texts, the double that is found can be another one than the one that was put, and where a
layer of an application answers lookups, anything can be found. -/
theorem finds_unput : keepsAnHour.FindsUnput ∧ answersAnHour.FindsUnput :=
  ⟨findsUnput_keepsAnHour, findsUnput_answersAnHour⟩

end LayeredCache.Spec
