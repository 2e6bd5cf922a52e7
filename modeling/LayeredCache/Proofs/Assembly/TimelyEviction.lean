import LayeredCache.Proofs.Assembly.BoundedStack
import LayeredCache.Proofs.Assembly.LeastCapacity
import LayeredCache.Proofs.Layer.Direct
import LayeredCache.Proofs.Layer.Sparing

/-!
# What is lost at a put

A put loses another entry only if a scheduled clear is due or the layer that evicts comes to track more
keys than its capacity. The layer tracks every stored key. It tracks no others as long as no layer beneath it
clears the storage: such a clear is not noticed by the layer, which then evicts before the storage is full.
-/

namespace LayeredCache

variable {E : Extension} {p : Perpetual} {layers inner outer : List (Layer E)}

namespace Chain

/-! ## Clears that are due and keys that are tracked -/

/-- One of the layers clears the storage at the call, as its interval has passed. -/
def isStale (call : Call) : (ds : List (DecoratorKind E)) → Chain .perpetual ds → Bool
  | [], _ => false
  | .scheduled :: ds, s => Scheduled.isStale s.1 call || isStale call ds s.2
  | _ :: ds, s => isStale call ds s.2

/-- The keys that the outermost layer that evicts tracks. -/
def tracked : (ds : List (DecoratorKind E)) → Chain .perpetual ds → List String
  | [], _ => []
  | .lru :: _, s => (Lru.order s.1).keys
  | .fifo :: _, s => Fifo.queue s.1
  | _ :: ds, s => tracked ds s.2

/-- With the key, one of the layers tracks more keys than its capacity. -/
def Overflows (key : String) : (ds : List (DecoratorKind E)) → Chain .perpetual ds → Prop
  | [], _ => False
  | .lru :: ds, s =>
    (Lru.capacity s.1).count < ((Lru.order s.1).keys.insert key).length ∨ Overflows key ds s.2
  | .fifo :: ds, s =>
    (Fifo.capacity s.1).count < ((Fifo.queue s.1).insert key).length ∨ Overflows key ds s.2
  | _ :: ds, s => Overflows key ds s.2

/-- In a chain of built-in layers, a put spares the other entries unless a clear is due or a layer
overflows. -/
theorem spares {ds : List (DecoratorKind E)} (hbuiltIn : ∀ d ∈ ds, ∀ added, d ≠ .added added) :
    (cache .perpetual ds).Spares (bottom ds) fun call key s =>
      isStale call ds s = false ∧ ¬ Overflows key ds s := by
  induction ds with
  | nil => exact Perpetual.spares.mono fun _ _ _ _ => trivial
  | cons d ds ih =>
    obtain ⟨hd, hds⟩ := List.forall_mem_cons.1 hbuiltIn
    have hinner := ih hds
    cases d with
    | lru =>
      refine (Lru.spares hinner).mono fun call key s ⟨hfresh, hroom⟩ => ?_
      obtain ⟨hfits, hrest⟩ := not_or.1 hroom
      exact ⟨Nat.le_of_not_lt hfits, hfresh, hrest⟩
    | fifo =>
      refine (Fifo.spares hinner).mono fun call key s ⟨hfresh, hroom⟩ => ?_
      obtain ⟨hfits, hrest⟩ := not_or.1 hroom
      exact ⟨Nat.le_of_not_lt hfits, hfresh, hrest⟩
    | scheduled =>
      refine (Scheduled.spares hinner).mono fun call key s ⟨hfresh, hroom⟩ => ?_
      obtain ⟨hfirst, hrest⟩ := Bool.or_eq_false_iff.1 hfresh
      exact ⟨hfirst, hrest, hroom⟩
    | serialized => exact hinner.around Serialized.encode fun _ _ _ _ hfits => ⟨hfits, rfl⟩
    | logging => exact hinner.around id fun _ _ _ _ hfits => ⟨hfits, rfl⟩
    | synchronized => exact hinner.around id fun _ _ _ _ hfits => ⟨hfits, rfl⟩
    | blocking => exact hinner.around id fun _ _ _ _ hfits => ⟨hfits, rfl⟩
    | added added => exact absurd rfl (hd added)

/-! ## Stored and tracked keys -/

/-- The layer that evicts tracks every stored key, each once, and it tracks no other keys if it is `faithful`.
No other layer has a capacity to exceed. -/
structure Tidy (capacity : Nat) (faithful : Prop) (ds : List (DecoratorKind E)) (s : Chain .perpetual ds) :
    Prop where
  nodup : (tracked ds s).Nodup
  stored : (bottom ds s).keys ⊆ tracked ds s
  exact : faithful → (bottom ds s).Tracked (tracked ds s)
  overflows (key) : Overflows key ds s → capacity < ((tracked ds s).insert key).length

/-- A faithful one would track as many keys after a put as there would be entries. -/
lemma Tidy.size_insert {capacity : Nat} {faithful : Prop} {ds : List (DecoratorKind E)} {s : Chain .perpetual ds}
    (h : Tidy capacity faithful ds s) (hfaithful : faithful) (key : String) (value : Json) :
    ((bottom ds s).insert key value).size = ((tracked ds s).insert key).length :=
  ((h.exact hfaithful).insert key value).size

/-! ## The layer that evicts -/

lemma not_overflows {ds : List (DecoratorKind E)} (h : .lru ∉ ds ∧ .fifo ∉ ds) (key : String)
    (s : Chain .perpetual ds) : ¬ Overflows key ds s := by
  induction ds with
  | nil => exact not_false
  | cons d ds ih =>
    simp only [List.mem_cons, not_or] at h
    obtain ⟨⟨hlru, hlrus⟩, hfifo, hfifos⟩ := h
    cases d with
    | lru => exact absurd rfl hlru
    | fifo => exact absurd rfl hfifo
    | _ => exact ih ⟨hlrus, hfifos⟩ s.2

variable {values : Json → Prop} (policy : Eviction) (capacity : Capacity)

/-- The layer that evicts tracks every stored key, each once, even if operations fail. -/
lemma always_tracked (hp : p.keys = []) (hnew : ∀ layer ∈ inner, layer.New)
    (hothers : .lru ∉ inner.map Layer.kind ∧ .fifo ∉ inner.map Layer.kind) :
    Always values p (policy.layer capacity :: inner) (Tidy capacity.count False _) := by
  obtain ⟨within, hroomy, hfirst⟩ := exists_roomy (capacity.count + 1) hp hnew
    (by simp [capacities_eq_nil.2 hothers])
  cases policy with
  | leastRecent =>
    refine ⟨_, (Lru.bounding hroomy).mono fun _ _ => trivial, ⟨rfl, .clear hfirst⟩, ?_⟩
    rintro s ⟨hcapacity, hs⟩
    exact ⟨hs.nodup, hroomy.stored hs.within, False.elim, fun key hover =>
      hcapacity ▸ hover.resolve_right (not_overflows hothers key s.2)⟩
  | firstIn =>
    refine ⟨_, (Fifo.bounding hroomy).mono fun _ _ => trivial, ⟨rfl, .clear hfirst⟩, ?_⟩
    rintro s ⟨hcapacity, hs⟩
    exact ⟨hs.nodup, hroomy.stored hs.within, False.elim, fun key hover =>
      hcapacity ▸ hover.resolve_right (not_overflows hothers key s.2)⟩

/-- Layers that neither clear nor evict act on an empty storage directly, as long as the values that are put
can be read. -/
lemma exists_direct (hp : p.entries = []) (hneutral : ∀ layer ∈ inner, layer.Neutral)
    (hread : ∀ v, values v → v.Readable) :
    ∃ legible, (cache .perpetual (inner.map Layer.kind)).Direct (bottom _) values
        (fun v => values v ∨ Json.IsReadOf values v) legible ∧ legible (ofLayers p inner) := by
  induction inner generalizing values with
  | nil =>
    refine ⟨_, (Perpetual.direct values).mono fun _ => .inl, fun key value hvalue => ?_⟩
    have hnone : Perpetual.get? p key = none := by rw [Perpetual.get?, hp]; rfl
    cases hnone.symm.trans hvalue
  | cons layer inner ih =>
    obtain ⟨hlayer, hinner⟩ := List.forall_mem_cons.1 hneutral
    cases hlayer with
    | serialized =>
      -- a text is read as itself
      have htext (text : Json) : Json.IsTextOf values text → text.Storable := by
        rintro ⟨value, -, rfl⟩
        exact Json.storable_string _
      obtain ⟨legible, hdirect, hfirst⟩ := ih hinner fun text h => ⟨text, Json.read_print (htext text h)⟩
      have hheld (v : Json) : Json.IsTextOf values v ∨ Json.IsReadOf (Json.IsTextOf values) v →
          Json.IsTextOf values v := by
        rintro (h | ⟨text, h, hv⟩)
        · exact h
        · exact Except.ok.inj ((Json.read_print (htext text h)).symm.trans hv) ▸ h
      exact ⟨_, (Serialized.direct hread (hdirect.mono hheld)).mono fun _ => .inr, trivial, hfirst⟩
    | logging =>
      obtain ⟨legible, hdirect, hfirst⟩ := ih hinner hread
      exact ⟨_, Logging.direct hdirect, trivial, hfirst⟩
    | synchronized =>
      obtain ⟨legible, hdirect, hfirst⟩ := ih hinner hread
      exact ⟨_, Synchronized.direct hdirect, rfl, hfirst⟩

/-- If values that are put can be read, and no layer beneath it clears the storage, the layer that evicts
tracks the stored keys and no others. -/
lemma always_exact (hp : p.entries = []) (hread : ∀ v, values v → v.Readable)
    (hneutral : ∀ layer ∈ inner, layer.Neutral) :
    Always values p (policy.layer capacity :: inner) fun s => (bottom _ s).Tracked (tracked _ s) := by
  obtain ⟨legible, hdirect, hfirst⟩ := exists_direct hp hneutral hread
  have hempty : (bottom _ (ofLayers p inner)).Tracked [] := by
    rw [bottom_ofLayers]
    refine ⟨.nil, fun key => ?_⟩
    rw [Perpetual.keys, hp, List.map_nil]
  cases policy with
  | leastRecent => exact ⟨_, Lru.tracking hdirect, ⟨hempty, hfirst⟩, fun s hs => hs.1⟩
  | firstIn => exact ⟨_, Fifo.tracking hdirect, ⟨Nat.zero_le _, hempty, hfirst⟩, fun s hs => hs.2.1⟩

lemma always_tidy {faithful : Prop} (hp : p.entries = []) (hnew : ∀ layer ∈ inner, layer.New)
    (hothers : .lru ∉ inner.map Layer.kind ∧ .fifo ∉ inner.map Layer.kind)
    (hfaithful : faithful → (∀ v, values v → v.Readable) ∧ ∀ layer ∈ inner, layer.Neutral) :
    Always values p (policy.layer capacity :: inner) (Tidy capacity.count faithful _) := by
  have htracked : Always values p (policy.layer capacity :: inner) (Tidy capacity.count False _) :=
    always_tracked policy capacity (congrArg (List.map Prod.fst) hp) hnew hothers
  by_cases h : faithful
  · obtain ⟨hread, hneutral⟩ := hfaithful h
    exact (htracked.and (always_exact policy capacity hp hread hneutral)).mono fun s ⟨hs, hexact⟩ =>
      { hs with exact := fun _ => hexact }
  · exact htracked.mono fun s hs => { hs with exact := fun hfaithful => absurd hfaithful h }

/-- A layer around it that does not evict leaves this as it is. -/
lemma always_tidy_append {capacity : Nat} {faithful : Prop}
    (htexts : ∀ value, values value → values (Serialized.encode value))
    (h : Always values p inner (Tidy capacity faithful _))
    (houter : ∀ layer ∈ outer, (∀ added, layer.kind ≠ .added added) ∧ layer.kind ≠ .lru ∧
      layer.kind ≠ .fifo) :
    Always values p (outer ++ inner) (Tidy capacity faithful _) := by
  induction outer with
  | nil => exact h
  | cons layer outer ih =>
    obtain ⟨⟨hbuiltIn, hlru, hfifo⟩, hrest⟩ := List.forall_mem_cons.1 houter
    refine ((ih hrest).cons hbuiltIn htexts).mono fun s hs => ?_
    obtain ⟨kind, own⟩ := layer
    cases kind with
    | lru => exact absurd rfl hlru
    | fifo => exact absurd rfl hfifo
    | _ => exact ⟨hs.nodup, hs.stored, hs.exact, hs.overflows⟩

/-! ## Entries that are lost -/

/-- A put of a key takes the entry of another key away or changes it. -/
def Loses (ds : List (DecoratorKind E)) (s : Chain .perpetual ds) (call : Call) (key : String)
    (value : Json) (other : String) : Prop :=
  other ≠ key ∧ ∃ v, (bottom ds s).get? other = some v ∧
    (bottom ds ((cache .perpetual ds).put call key value s).2).get? other ≠ some v

lemma loses_of_keys {ds : List (DecoratorKind E)} {s : Chain .perpetual ds} {call : Call}
    {key other : String} {value : Json} (hother : other ≠ key) (hbefore : other ∈ (bottom ds s).keys)
    (hafter : other ∉ (bottom ds ((cache .perpetual ds).put call key value s).2).keys) :
    Loses ds s call key value other := by
  obtain ⟨v, hv⟩ := Perpetual.mem_keys.1 hbefore
  exact ⟨hother, v, hv, fun hkept => hafter (Perpetual.mem_keys.2 ⟨v, hkept⟩)⟩

/-- An entry is lost only if a clear is due or a layer overflows. -/
lemma Loses.cases {ds : List (DecoratorKind E)} {s : Chain .perpetual ds} {call : Call}
    {key other : String} {value : Json} (h : Loses ds s call key value other)
    (hbuiltIn : ∀ d ∈ ds, ∀ added, d ≠ .added added) :
    isStale call ds s = true ∨ Overflows key ds s := by
  obtain ⟨hother, v, hbefore, hafter⟩ := h
  by_contra hneither
  obtain ⟨hfresh, hroom⟩ := not_or.1 hneither
  have hspared := spares hbuiltIn call key value s ⟨eq_false_of_ne_true hfresh, hroom⟩ other hother
  exact hafter (hspared.trans hbefore)

end Chain

namespace Spec

variable {spec : Spec E} {now : Nat} {policy : Eviction} {inner outer : List (DecoratorKind E)}

/-- What is built with one layer that evicts: new layers of other kinds beneath it, and layers around it that
do not evict either. -/
lemma exists_evicting {stack : Stack E} (hbuild : spec.build now = .ok stack)
    (hperpetual : spec.storage.isPerpetual = true) (hkinds : spec.kinds = inner ++ policy.kind :: outer)
    (hothers : ∀ kind ∈ inner ++ outer,
      kind = .scheduled ∨ kind = .serialized ∨ kind = .logging ∨ kind = .synchronized) :
    ∃ (capacity : Capacity) (beneath above : List (Layer E)),
      spec.evictionCapacity outer.isEmpty = .ok capacity ∧
      stack = .ofLayers (.empty spec.id) (above ++ policy.layer capacity :: beneath) ∧
      (∀ layer ∈ beneath, layer.New) ∧ beneath.map Layer.kind = inner.reverse ∧
      (.scheduled ∉ inner → ∀ layer ∈ beneath, layer.Neutral) ∧
      ∀ layer ∈ above, (∀ added, layer.kind ≠ .added added) ∧ layer.kind ≠ .lru ∧ layer.kind ≠ .fifo := by
  obtain ⟨-, -, layers, layers', hlayers, hsized, rfl⟩ := (build_eq_ok hperpetual).1 hbuild
  obtain ⟨capacity, within, around, hcapacity, rfl, rfl, rfl, hfresh⟩ :=
    hsized.split_fresh hlayers.fresh (hlayers.kinds_eq.trans hkinds) fun kind hkind =>
      hothers kind (List.mem_append_right _ hkind)
  have hkind : ∀ layer ∈ within ++ around, layer.kind = .scheduled ∨ layer.kind = .serialized ∨
      layer.kind = .logging ∨ layer.kind = .synchronized := fun layer hlayer =>
    hothers _ (List.map_append ▸ List.mem_map_of_mem hlayer)
  refine ⟨capacity, within.reverse, (around ++ spec.standardLayers now).reverse, hcapacity, ?_, ?_,
    List.map_reverse, ?_, ?_⟩
  · rw [Stack.wrapAll_base]
    simp
  · intro layer hlayer
    have hmem := List.mem_append_left around (List.mem_reverse.1 hlayer)
    refine new_of_fresh (fun added => ?_) ?_ (hfresh layer hmem)
    all_goals rcases hkind layer hmem with h | h | h | h <;> simp [h]
  · intro hscheduled layer hlayer
    have hlayer := List.mem_reverse.1 hlayer
    have hmem := List.mem_append_left around hlayer
    refine neutral_of_fresh (hfresh layer hmem) ((hkind layer hmem).resolve_left fun h => hscheduled ?_)
    exact h ▸ List.mem_map_of_mem hlayer
  · intro layer hlayer
    rcases List.mem_append.1 (List.mem_reverse.1 hlayer) with hlayer | hlayer
    · rcases hkind layer (List.mem_append_right _ hlayer) with h | h | h | h <;> simp [h]
    · refine ⟨ne_added_of_mem_standardLayers hlayer, ?_⟩
      rcases of_mem_standardLayers hlayer with ⟨-, hevicts⟩ | rfl
      · exact hevicts
      · exact ⟨nofun, nofun⟩

/-- In a built cache with one layer that evicts, a put loses another entry only if a scheduled clear is due
or the layer would track more keys than its capacity. It tracks all stored keys, and no others if no layer
beneath it clears the storage: then the put would leave more entries than the capacity. -/
theorem loses_only_if_full {stack : Stack E} (hbuild : spec.build now = .ok stack)
    (hperpetual : spec.storage.isPerpetual = true) (hkinds : spec.kinds = inner ++ policy.kind :: outer)
    (hothers : ∀ kind ∈ inner ++ outer,
      kind = .scheduled ∨ kind = .serialized ∨ kind = .logging ∨ kind = .synchronized) :
    ∃ (ds : List (DecoratorKind E)) (state : Chain .perpetual ds) (capacity : Capacity),
      stack = ⟨.perpetual, ds, state⟩ ∧ spec.evictionCapacity outer.isEmpty = .ok capacity ∧
      (∀ session, Session.Reaches (Chain.cache .perpetual ds) (fun _ => True) (.new state now) session →
        (Chain.bottom ds session.state).keys ⊆ Chain.tracked ds session.state ∧
        ∀ call key value other, Chain.Loses ds session.state call key value other →
          Chain.isStale call ds session.state = true ∨
            capacity.count < ((Chain.tracked ds session.state).insert key).length) ∧
      (.scheduled ∉ inner → ∀ session,
        Session.Reaches (Chain.cache .perpetual ds) Json.Shallow (.new state now) session →
        ∀ call key value other, Chain.Loses ds session.state call key value other →
          Chain.isStale call ds session.state = true ∨
            capacity.count < ((Chain.bottom ds session.state).insert key value).size) := by
  obtain ⟨capacity, beneath, above, hcapacity, rfl, hnew, hbeneath, hneutral, habove⟩ :=
    exists_evicting hbuild hperpetual hkinds hothers
  have hevicts : .lru ∉ beneath.map Layer.kind ∧ .fifo ∉ beneath.map Layer.kind := by
    have hinner := fun kind hkind => hothers kind (List.mem_append_left _ hkind)
    rw [hbeneath, List.mem_reverse, List.mem_reverse]
    exact ⟨fun hlru => by simpa using hinner _ hlru, fun hfifo => by simpa using hinner _ hfifo⟩
  have hbuiltIn : ∀ d ∈ (above ++ policy.layer capacity :: beneath).map Layer.kind, ∀ added,
      d ≠ .added added := by
    refine List.forall_mem_map.2 (List.forall_mem_append.2 ⟨fun layer hlayer => (habove layer hlayer).1, ?_⟩)
    exact List.forall_mem_cons.2 ⟨by cases policy <;> exact nofun, fun layer hlayer =>
      (hnew layer hlayer).ne_added⟩
  refine ⟨_, _, capacity, rfl, hcapacity, fun session hreaches => ?_, fun hscheduled session hreaches => ?_⟩
  · have htidy := (Chain.always_tidy_append (fun _ _ => trivial)
      (Chain.always_tidy policy capacity rfl hnew hevicts False.elim) habove).reaches hreaches
    exact ⟨htidy.stored, fun call key value other hloses =>
      (hloses.cases hbuiltIn).imp_right (htidy.overflows key)⟩
  · have hfaithful : True → (∀ v : Json, v.Shallow → v.Readable) ∧ ∀ layer ∈ beneath, layer.Neutral :=
      fun _ => ⟨fun _ hv => hv.readable, hneutral hscheduled⟩
    have htidy := (Chain.always_tidy_append (fun value _ => Json.shallow_string _)
      (Chain.always_tidy policy capacity rfl hnew hevicts hfaithful) habove).reaches hreaches
    intro call key value other hloses
    rw [htidy.size_insert trivial]
    exact (hloses.cases hbuiltIn).imp_right (htidy.overflows key)

/-- Two keys are kept, those inserted last, with serialization beneath and scheduled clearing around. -/
def keepsLatest : Spec .nothing :=
  { Spec.new "users" with
    decorators := [.decorator .serialized, .decorator .fifo, .decorator .scheduled]
    properties := .ofList [("size", "2")] }

/-- A third key takes the place of the first one, as there would be three entries. -/
theorem loses_only_if_full_keepsLatest :
    ∃ (ds : List (DecoratorKind .nothing)) (state : Chain .perpetual ds) (session : Session _ Outcome),
      keepsLatest.build 0 = .ok ⟨.perpetual, ds, state⟩ ∧
      Session.Reaches (Chain.cache .perpetual ds) Json.Shallow (.new state 0) session ∧
      Chain.Loses ds session.state (.at 7 3) "c" .null "a" ∧
      2 < ((Chain.bottom ds session.state).insert "c" .null).size := by
  have hbuild : keepsLatest.build 0 = .ok (.ofLayers (.empty "users") [⟨.synchronized, Synchronized.free⟩,
      ⟨.logging, Logging.empty⟩, ⟨.scheduled, Scheduled.since 0⟩, ⟨.fifo, Fifo.mk [] ⟨2, by decide⟩⟩,
      ⟨.serialized, Serialized.mk⟩]) := rfl
  obtain ⟨ds, state, capacity, hstack, hcapacity, -, hfull⟩ :=
    @loses_only_if_full .nothing keepsLatest 0 .firstIn [.serialized] [.scheduled] _ hbuild rfl rfl (by decide)
  have hreaches : Session.Reaches (Chain.cache .perpetual ds) Json.Shallow (.new state 0) _ :=
    Session.reaches_performAll _ 7 [(1, .put "a" .null), (1, .put "b" .null)] _
      (by simp [Operation.Puts, Json.shallow_null])
  cases hstack
  obtain rfl : ⟨2, by decide⟩ = capacity := Except.ok.inj (.trans rfl hcapacity)
  refine ⟨_, _, _, hbuild, hreaches, Chain.loses_of_keys (by decide) (by decide +kernel)
    (by decide +kernel), ?_⟩
  refine (hfull (by decide) _ hreaches (.at 7 3) "c" .null "a" ?_).resolve_left (by decide +kernel)
  exact Chain.loses_of_keys (by decide) (by decide +kernel) (by decide +kernel)

/-- Two keys are kept, and a layer beneath that one clears the storage every millisecond. -/
def clearsBeneath : Spec .nothing :=
  { Spec.new "users" with
    decorators := [.decorator .scheduled, .decorator .fifo]
    properties := .ofList [("clearInterval", "1")]
    size := some 2 }

/-- After the clear the first key is put again, alone. The layer that evicts still tracks the second one, and
takes the first for a third key, although there would be two entries. -/
theorem loses_before_full :
    ∃ (ds : List (DecoratorKind .nothing)) (state : Chain .perpetual ds) (session : Session _ Outcome),
      clearsBeneath.build 0 = .ok ⟨.perpetual, ds, state⟩ ∧ clearsBeneath.kinds = [.scheduled, .fifo] ∧
      clearsBeneath.evictionCapacity true = .ok ⟨2, by decide⟩ ∧
      Session.Reaches (Chain.cache .perpetual ds) Json.Shallow (.new state 0) session ∧
      Chain.isStale (.at 7 session.now) ds session.state = false ∧
      Chain.Loses ds session.state (.at 7 session.now) "c" .null "a" ∧
      ((Chain.bottom ds session.state).insert "c" .null).size ≤ 2 := by
  have hreaches := @Session.reaches_performAll _ Json.Shallow
    (Chain.cache (E := .nothing) .perpetual [.synchronized, .logging, .fifo, .scheduled]) 7
    [(1, .put "a" .null), (1, .put "b" .null), (2000000, .put "a" .null)]
    (.new (Synchronized.free, Logging.empty, Fifo.mk [] ⟨2, by decide⟩, Scheduled.mk nanosPerMilli 0,
      Perpetual.empty "users") 0)
    (by simp [Operation.Puts, Json.shallow_null])
  exact ⟨_, _, _, rfl, rfl, rfl, hreaches, by decide +kernel,
    Chain.loses_of_keys (by decide) (by decide +kernel) (by decide +kernel), by decide +kernel⟩

end Spec

end LayeredCache
