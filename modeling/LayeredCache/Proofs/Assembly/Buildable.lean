import LayeredCache.Proofs.Assembly.FreshLayers

/-!
# What can be built

Of the specifications that refer to built-in layers only, those are built that name constructible layers,
none of them blocking, and give positive capacities and intervals that are not negative. What is built is
the perpetual storage under the named decorators and the standard layers that are asked for. A storage of
an application's own kind gets a layer that counts, unless it counts itself.
-/

namespace LayeredCache

variable {E : Extension}

/-! ## Properties that are numbers -/

namespace Spec

variable {spec : Spec E} {now : Nat}

/-- The property is absent or an integer of `bits` bits for which `p` holds. -/
def Reads (spec : Spec E) (name : String) (bits : Nat) (p : Int → Prop) : Prop :=
  ∀ raw, spec.properties.get? name = some raw → ∃ n, Decimal.readSigned bits raw.toList = .ok n ∧ p n

lemma exists_capacity {n : Int} : (∃ capacity, Capacity.ofInt n = .ok capacity) ↔ 0 < n := by
  rw [Capacity.ofInt]
  by_cases h : 0 < n.toNat
  · rw [dif_pos h]
    simp only [Except.ok.injEq, exists_eq', true_iff]
    omega
  · rw [dif_neg h]
    simp only [reduceCtorEq, exists_false, false_iff]
    omega

lemma exists_propertyCapacity :
    (∃ capacity, spec.propertyCapacity = .ok capacity) ↔ spec.Reads "size" 32 (0 < ·) := by
  rw [propertyCapacity, reading, Reads]
  cases spec.properties.get? "size" with
  | none => simp
  | some raw =>
    simp only [PropertyKind.coerce, readInteger, Option.some.injEq, forall_eq']
    cases Decimal.readSigned 32 raw.toList with
    | error fault => simp
    | ok n =>
      simp only [Except.ok.injEq, exists_eq_left']
      exact exists_capacity

lemma exists_propertyInterval :
    (∃ interval, spec.propertyInterval = .ok interval) ↔ spec.Reads "clearInterval" 64 (0 ≤ ·) := by
  rw [propertyInterval, reading, Reads]
  cases spec.properties.get? "clearInterval" with
  | none => simp
  | some raw =>
    simp only [PropertyKind.coerce, readInteger, Option.some.injEq, forall_eq']
    cases Decimal.readSigned 64 raw.toList with
    | error fault => simp
    | ok n =>
      simp only [Except.ok.injEq, exists_eq_left', Scheduled.intervalOf, PropertyValue.integer?]
      by_cases h : n < 0
      · rw [if_pos h]
        simp only [reduceCtorEq, exists_false, false_iff]
        omega
      · rw [if_neg h]
        simp only [Except.ok.injEq, exists_eq', true_iff]
        omega

/-! ## New layers and the capacity stage -/

/-- What properties a new layer of a kind asks for. -/
def Suits (spec : Spec E) : DecoratorKind E → Prop
  | .lru | .fifo => spec.Reads "size" 32 (0 < ·)
  | .scheduled => spec.Reads "clearInterval" 64 (0 ≤ ·)
  | _ => True

private lemma exists_map_eq_ok {ε α β : Type} (f : α → β) (x : Except ε α) :
    (∃ b, x.map f = .ok b) ↔ ∃ a, x = .ok a := by
  simp [map_eq_ok]

lemma exists_fresh {kind : DecoratorKind E} (hbuiltIn : ∀ added, kind ≠ .added added)
    (hblocking : kind ≠ .blocking) : (∃ layer, spec.fresh now kind = .ok layer) ↔ spec.Suits kind := by
  cases kind with
  | lru => rw [fresh_lru, exists_map_eq_ok, exists_propertyCapacity]; rfl
  | fifo => rw [fresh_fifo, exists_map_eq_ok, exists_propertyCapacity]; rfl
  | scheduled => rw [fresh_scheduled, exists_map_eq_ok, exists_propertyInterval]; rfl
  | serialized => exact ⟨fun _ => trivial, fun _ => ⟨_, fresh_serialized⟩⟩
  | logging => exact ⟨fun _ => trivial, fun _ => ⟨_, fresh_logging⟩⟩
  | synchronized => exact ⟨fun _ => trivial, fun _ => ⟨_, fresh_synchronized⟩⟩
  | blocking => exact absurd rfl hblocking
  | added added => exact absurd rfl (hbuiltIn added)

/-- There are new layers for some references if there is one for each. -/
lemma exists_layered {ts : List (LayerType E)} : (∃ layers, spec.Layered now ts layers) ↔
    ∀ t ∈ ts, ∃ kind, spec.decoratorKind t = .ok kind ∧ ∃ layer, spec.fresh now kind = .ok layer := by
  constructor
  · rintro ⟨layers, hkinds, hfresh⟩
    induction hkinds with
    | nil => simp
    | cons hkind _ ih =>
      obtain ⟨hfirst, hrest⟩ := List.forall_mem_cons.1 hfresh
      exact List.forall_mem_cons.2 ⟨⟨_, hkind, _, hfirst⟩, ih hrest⟩
  · intro h
    induction ts with
    | nil => exact ⟨[], .nil, by simp⟩
    | cons t ts ih =>
      obtain ⟨⟨kind, hkind, layer, hfresh⟩, hrest⟩ := List.forall_mem_cons.1 h
      obtain ⟨layers, hlayers⟩ := ih hrest
      obtain rfl := kind_of_fresh hfresh
      exact ⟨layer :: layers, .cons hkind hlayers.kinds,
        List.forall_mem_cons.2 ⟨hfresh, hlayers.fresh⟩⟩

/-- A layer takes every capacity, but one that evicts only a positive one. -/
lemma exists_resize {n : Int} {layer : Layer E} (hbuiltIn : ∀ added, layer.kind ≠ .added added) :
    (∃ layer', layer.resize n = .ok layer') ↔ (layer.kind = .lru ∨ layer.kind = .fifo → 0 < n) := by
  rcases Layer.resize_builtIn hbuiltIn with ⟨hevicts, put, hresize⟩ | ⟨⟨hlru, hfifo⟩, hresize⟩
  · rw [hresize, exists_map_eq_ok, exists_capacity]
    exact ⟨fun hpos _ => hpos, fun hpos => hpos hevicts⟩
  · rw [hresize]
    exact ⟨fun _ hevicts => (hevicts.elim hlru hfifo).elim, fun _ => ⟨layer, rfl⟩⟩

lemma exists_sized {layers : List (Layer E)} : (∃ layers', spec.Sized layers layers') ↔
    ∀ n, spec.size = some n → ∀ last, layers.getLast? = some last → ∃ layer', last.resize n = .ok layer' := by
  constructor
  · rintro ⟨layers', hsized⟩ n hsize last hlast
    cases hsized with
    | unset hnone =>
      rw [hnone] at hsize
      cases hsize
    | bare => cases hlast
    | last hsome hresize =>
      rw [hsome] at hsize
      obtain rfl := Option.some.inj hsize
      rw [List.getLast?_append, List.getLast?_singleton] at hlast
      obtain rfl := Option.some.inj hlast
      exact ⟨_, hresize⟩
  · intro h
    cases hsize : spec.size with
    | none => exact ⟨layers, .unset hsize⟩
    | some n =>
      rcases List.eq_nil_or_concat layers with rfl | ⟨layers, last, rfl⟩
      · exact ⟨[], .bare⟩
      · rw [List.concat_eq_append] at h ⊢
        obtain ⟨layer', hresize⟩ := h n hsize last (by simp)
        exact ⟨_, .last hsize hresize⟩

end Spec

/-! ## Kinds and ids of the layers -/

namespace Spec

variable {spec : Spec E} {now : Nat}

/-- The kinds of the custom decorators, innermost first. -/
def kinds (spec : Spec E) : List (DecoratorKind E) :=
  spec.effectiveDecorators.filterMap LayerType.decorator?

/-- The kinds of the standard layers that are asked for, innermost first. -/
def standardKinds (spec : Spec E) : List (DecoratorKind E) :=
  (if spec.clearInterval.isSome then [.scheduled] else []) ++
  (if spec.readWrite then [.serialized] else []) ++
  [.logging, .synchronized] ++
  (if spec.blocking then [.blocking] else [])

lemma map_kind_standardLayers (spec : Spec E) (now : Nat) :
    (spec.standardLayers now).map Layer.kind = spec.standardKinds := by
  obtain ⟨_, _, _, _, clearInterval, readWrite, blocking, _, _⟩ := spec
  cases clearInterval <;> cases readWrite <;> cases blocking <;> rfl

lemma Layered.kinds_eq {layers : List (Layer E)} (h : spec.Layered now spec.effectiveDecorators layers) :
    layers.map Layer.kind = spec.kinds := by
  have hkinds : spec.kinds =
      (spec.effectiveDecorators.map LayerType.decorator?).filterMap fun kind => kind := by
    rw [List.filterMap_map]
    rfl
  rw [hkinds, h.map_kind, List.filterMap_map]
  exact (List.filterMap_some ..).symm

end Spec

/-- Every layer of the stack has the id, wherever the layer is. -/
def Stack.Identified (stack : Stack E) (id : String) : Prop :=
  ∀ n cache, Chain.cacheWithin? stack.storage n stack.decorators = some cache → cache.id stack.state = id

lemma Stack.Identified.wrap {stack : Stack E} {id : String} (h : stack.Identified id) {layer : Layer E}
    (hbuiltIn : ∀ added, layer.kind ≠ .added added) :
    (stack.wrap layer.kind layer.own).Identified id := by
  intro n cache hcache
  cases n with
  | zero =>
    -- a built-in layer asks the cache beneath it for the id
    obtain rfl := Option.some.inj hcache
    have hinner := h 0 stack.cache rfl
    rw [← hinner]
    obtain ⟨kind, own⟩ := layer
    cases kind with
    | added added => exact absurd rfl (hbuiltIn added)
    | _ => rfl
  | succ n =>
    obtain ⟨inner, hinner, rfl⟩ := Option.map_eq_some_iff.1 hcache
    exact h n inner hinner

lemma Stack.Identified.wrapAll {stack : Stack E} {id : String} (h : stack.Identified id)
    {layers : List (Layer E)} (hbuiltIn : ∀ layer ∈ layers, ∀ added, layer.kind ≠ .added added) :
    (stack.wrapAll layers).Identified id := by
  induction layers generalizing stack with
  | nil => exact h
  | cons layer layers ih =>
    obtain ⟨hlayer, hlayers⟩ := List.forall_mem_cons.1 hbuiltIn
    exact ih (h.wrap hlayer) hlayers

/-! ## Specifications that are built -/

namespace Spec

variable {spec : Spec E} {now : Nat}

/-- The specification does not refer to kinds of layers that an application added. -/
structure BuiltIn (spec : Spec E) : Prop where
  storage : ∀ added, spec.storage.storage? ≠ some (.added added)
  decorators : ∀ added, .added added ∉ spec.kinds

/-- What a specification needs in order to be built. -/
structure Buildable (spec : Spec E) : Prop where
  storage : ∀ t, spec.implementation = some t → t.storage? = some .perpetual
  id : spec.id ≠ ""
  decorators : ∀ t ∈ spec.effectiveDecorators, t.decorator?.isSome ∧ t.isBlocking = false
  size : .lru ∈ spec.kinds ∨ .fifo ∈ spec.kinds → spec.Reads "size" 32 (0 < ·)
  interval : .scheduled ∈ spec.kinds → spec.Reads "clearInterval" 64 (0 ≤ ·)
  capacity : ∀ n, spec.size = some n →
    spec.kinds.getLast? = some .lru ∨ spec.kinds.getLast? = some .fifo → 0 < n

/-- The storage that is meant is the perpetual one if none is named. -/
lemma storage?_eq_perpetual : spec.storage.storage? = some .perpetual ↔
    ∀ t, spec.implementation = some t → t.storage? = some .perpetual := by
  rw [storage]
  cases spec.implementation with
  | none => simp [LayerType.storage, LayerType.storage?, TypeIdentity.storage?]
  | some t => simp

lemma BuiltIn.isPerpetual {stack : Stack E} (h : spec.BuiltIn) (hbuild : spec.build now = .ok stack) :
    spec.storage.isPerpetual = true := by
  cases hstorage : spec.storage.storage? with
  | none =>
    rw [build, buildStorage, storageKind, hstorage] at hbuild
    cases hbuild
  | some kind =>
    cases kind with
    | perpetual => exact (LayerType.isPerpetual_iff hstorage).2 rfl
    | added added => exact absurd hstorage (h.storage added)

lemma mem_kinds {t : LayerType E} {kind : DecoratorKind E} (ht : t ∈ spec.effectiveDecorators)
    (hkind : t.decorator? = some kind) : kind ∈ spec.kinds :=
  List.mem_filterMap.2 ⟨t, ht, hkind⟩

/-- All custom decorators can be made if they are constructible and their properties suit them. -/
lemma BuiltIn.exists_layered (h : spec.BuiltIn) (now : Nat) :
    (∃ layers, spec.Layered now spec.effectiveDecorators layers) ↔
      (∀ t ∈ spec.effectiveDecorators, t.decorator?.isSome ∧ t.isBlocking = false) ∧
        (.lru ∈ spec.kinds ∨ .fifo ∈ spec.kinds → spec.Reads "size" 32 (0 < ·)) ∧
        (.scheduled ∈ spec.kinds → spec.Reads "clearInterval" 64 (0 ≤ ·)) := by
  rw [Spec.exists_layered]
  constructor
  · intro hfresh
    have hsuits : ∀ kind ∈ spec.kinds, spec.Suits kind := by
      intro kind hkind
      obtain ⟨t, ht, hdecorator⟩ := List.mem_filterMap.1 hkind
      obtain ⟨kind', hkind', hlayer⟩ := hfresh t ht
      obtain rfl := Option.some.inj (hdecorator.symm.trans (decoratorKind_eq_ok.1 hkind').2)
      have hbuiltIn : ∀ added, kind ≠ .added added := fun added heq => h.decorators added (heq ▸ hkind)
      exact (exists_fresh hbuiltIn (ne_blocking_of_decoratorKind hkind')).1 hlayer
    refine ⟨fun t ht => ?_, ?_, fun hscheduled => hsuits _ hscheduled⟩
    · obtain ⟨kind, hkind, -⟩ := hfresh t ht
      obtain ⟨hblocking, hdecorator⟩ := decoratorKind_eq_ok.1 hkind
      exact ⟨hdecorator ▸ rfl, hblocking⟩
    · rintro (hlru | hfifo)
      · exact hsuits _ hlru
      · exact hsuits _ hfifo
  · rintro ⟨hconstructible, hsize, hinterval⟩ t ht
    obtain ⟨hdecorator, hblocking⟩ := hconstructible t ht
    obtain ⟨kind, hkind⟩ := Option.isSome_iff_exists.1 hdecorator
    have hmem := mem_kinds ht hkind
    have hkind' : spec.decoratorKind t = .ok kind := decoratorKind_eq_ok.2 ⟨hblocking, hkind⟩
    have hbuiltIn : ∀ added, kind ≠ .added added := fun added heq => h.decorators added (heq ▸ hmem)
    refine ⟨kind, hkind', (exists_fresh hbuiltIn (ne_blocking_of_decoratorKind hkind')).2 ?_⟩
    cases kind with
    | lru => exact hsize (.inl hmem)
    | fifo => exact hsize (.inr hmem)
    | scheduled => exact hinterval hmem
    | _ => trivial

/-- The capacity stage goes through unless it gives a capacity that is not positive. -/
lemma BuiltIn.exists_sized (h : spec.BuiltIn) {layers : List (Layer E)}
    (hlayers : spec.Layered now spec.effectiveDecorators layers) :
    (∃ layers', spec.Sized layers layers') ↔ ∀ n, spec.size = some n →
      spec.kinds.getLast? = some .lru ∨ spec.kinds.getLast? = some .fifo → 0 < n := by
  have hkinds := hlayers.kinds_eq
  rw [Spec.exists_sized, ← hkinds, List.getLast?_map]
  refine forall_congr' fun n => forall_congr' fun hsize => ?_
  cases hlast : layers.getLast? with
  | none => simp
  | some last =>
    have hbuiltIn : ∀ added, last.kind ≠ .added added := by
      intro added heq
      refine h.decorators added ?_
      rw [← hkinds, ← heq]
      exact List.mem_map_of_mem (List.mem_of_getLast? hlast)
    simp only [Option.some.injEq, forall_eq', Option.map_some]
    exact exists_resize hbuiltIn

/-- Exactly the buildable specifications of built-in layers are built. -/
lemma BuiltIn.exists_build (h : spec.BuiltIn) :
    (∃ stack, spec.build now = .ok stack) ↔ spec.Buildable := by
  constructor
  · rintro ⟨stack, hbuild⟩
    obtain ⟨hstorage, hid, layers, layers', hlayers, hsized, -⟩ :=
      (build_eq_ok (h.isPerpetual hbuild)).1 hbuild
    obtain ⟨hdecorators, hsize, hinterval⟩ := (h.exists_layered now).1 ⟨layers, hlayers⟩
    exact ⟨storage?_eq_perpetual.1 hstorage, hid, hdecorators, hsize, hinterval,
      (h.exists_sized hlayers).1 ⟨layers', hsized⟩⟩
  · intro hbuildable
    have hstorage := storage?_eq_perpetual.2 hbuildable.storage
    obtain ⟨layers, hlayers⟩ := (h.exists_layered now).2
      ⟨hbuildable.decorators, hbuildable.size, hbuildable.interval⟩
    obtain ⟨layers', hsized⟩ := (h.exists_sized hlayers).2 hbuildable.capacity
    exact ⟨_, (build_eq_ok ((LayerType.isPerpetual_iff hstorage).2 rfl)).2
      ⟨hstorage, hbuildable.id, layers, layers', hlayers, hsized, rfl⟩⟩

/-- What is built of built-in layers: the perpetual storage under the named decorators and the standard
ones, all with the id of the specification. -/
lemma BuiltIn.built {stack : Stack E} (h : spec.BuiltIn) (hbuild : spec.build now = .ok stack) :
    stack.storage = .perpetual ∧ stack.decorators.reverse = spec.kinds ++ spec.standardKinds ∧
      stack.Identified spec.id := by
  obtain ⟨-, -, layers, layers', hlayers, hsized, rfl⟩ := (build_eq_ok (h.isPerpetual hbuild)).1 hbuild
  have hkinds : (layers' ++ spec.standardLayers now).map Layer.kind = spec.kinds ++ spec.standardKinds := by
    rw [List.map_append, hsized.kinds, hlayers.kinds_eq, map_kind_standardLayers]
  refine ⟨Stack.storage_wrapAll .., ?_, ?_⟩
  · rw [Stack.decorators_wrapAll, hkinds]
    exact (congrArg List.reverse (List.append_nil _)).trans (List.reverse_reverse _)
  · have hbase : (Stack.base (E := E) .perpetual (Perpetual.empty spec.id)).Identified spec.id := by
      intro n cache hcache
      cases n with
      | zero =>
        obtain rfl := Option.some.inj hcache
        rfl
      | succ n => cases hcache
    refine hbase.wrapAll fun layer hlayer added heq => ?_
    have hmem : .added added ∈ spec.kinds ++ spec.standardKinds := by
      rw [← hkinds, ← heq]
      exact List.mem_map_of_mem hlayer
    rcases List.mem_append.1 hmem with hmem | hmem
    · exact h.decorators added hmem
    · simp [standardKinds] at hmem

/-- A storage that an application added gets at most a layer that counts. -/
lemma built_of_added {stack : Stack E} {added : E.Storage}
    (hstorage : spec.storage.storage? = some (.added added)) (hbuild : spec.build now = .ok stack) :
    ∃ state, spec.buildStorage spec.storage = .ok (.base (.added added) state) ∧
      stack = if ((E.storage added).cache.stats state).isNone then
        (Stack.base (.added added) state).wrap .logging Logging.empty
      else .base (.added added) state := by
  have hperpetual : spec.storage.isPerpetual = false := by
    rw [Bool.eq_false_iff, ne_eq, LayerType.isPerpetual_iff hstorage]
    exact nofun
  rw [build] at hbuild
  cases hbottom : spec.buildStorage spec.storage with
  | error e =>
    rw [hbottom] at hbuild
    cases hbuild
  | ok bottom =>
    obtain ⟨state, rfl⟩ : ∃ state, bottom = .base (.added added) state := by
      rw [buildStorage, storageKind, hstorage] at hbottom
      simp only at hbottom
      split at hbottom
      · cases hbottom
      · split at hbottom
        · cases hbottom
        · exact ⟨_, (Except.ok.inj hbottom).symm⟩
    refine ⟨state, rfl, ?_⟩
    simp only [hbottom, hperpetual, Bool.false_eq_true, if_false] at hbuild
    split at hbuild
    · rename_i hnone
      rw [← Except.ok.inj hbuild]
      exact (if_pos hnone).symm
    · rename_i hsome
      rw [← Except.ok.inj hbuild]
      exact (if_neg hsome).symm

/-- Which specifications are built, and what the layers are. For a specification of built-in layers both
are known exactly; a storage that an application added is the only layer unless it keeps no statistics. -/
theorem build_exact (spec : Spec E) (now : Nat) :
    (spec.BuiltIn →
      ((∃ stack, spec.build now = .ok stack) ↔ spec.Buildable) ∧
      ∀ stack, spec.build now = .ok stack →
        stack.storage = .perpetual ∧ stack.decorators.reverse = spec.kinds ++ spec.standardKinds ∧
        stack.layers = (StorageKind.perpetual (E := E)).model.name ::
          (spec.kinds ++ spec.standardKinds).map (fun kind => kind.model.name) ∧
        ∀ n cache, Chain.cacheWithin? stack.storage n stack.decorators = some cache →
          cache.id stack.state = spec.id) ∧
    ∀ added, spec.storage.storage? = some (.added added) →
      ∀ stack, spec.build now = .ok stack →
        ∃ state, spec.buildStorage spec.storage = .ok (.base (.added added) state) ∧
          stack.layers = (E.storage added).name ::
            if ((E.storage added).cache.stats state).isNone
            then [(DecoratorKind.logging (E := E)).model.name] else [] := by
  refine ⟨fun h => ⟨h.exists_build, fun stack hbuild => ?_⟩, fun added hstorage stack hbuild => ?_⟩
  · obtain ⟨hstorage, hdecorators, hid⟩ := h.built hbuild
    refine ⟨hstorage, hdecorators, ?_, hid⟩
    rw [Stack.layers, hstorage, ← List.map_reverse, hdecorators]
  · obtain ⟨state, hbottom, rfl⟩ := built_of_added hstorage hbuild
    refine ⟨state, hbottom, ?_⟩
    split <;> rfl

/-- A kind of storage that counts nothing, as an application might add it. -/
def withTable : Extension where
  Storage := Unit
  Decorator := Empty
  storage _ :=
    { name := "app::Table"
      State := Perpetual
      cache := Perpetual.cache
      attributes := .none
      make := Perpetual.make }
  decorator := nofun

/-- A cache in a table. -/
def inTable : Spec withTable :=
  { Spec.new "users" with implementation := some (.storage (.added ())) }

/-- The standard cache is built, and a table gets a layer that counts. -/
theorem build_exact_table : (∃ stack, (Spec.new (E := withTable) "users").build 0 = .ok stack) ∧
    ∃ stack, inTable.build 0 = .ok stack ∧
      stack.layers = ["app::Table", "cache_assembler::cache::decorators::logging::LoggingCache"] := by
  have hkinds : (Spec.new (E := withTable) "users").kinds = [.lru] := rfl
  have hbuiltIn : (Spec.new (E := withTable) "users").BuiltIn := by
    refine ⟨fun added => nofun, fun added => ?_⟩
    rw [hkinds]
    simp
  have hbuildable : (Spec.new (E := withTable) "users").Buildable := by
    refine ⟨fun t => nofun, by decide, fun t ht => ?_, fun _ raw => nofun, fun _ raw => nofun, fun n => nofun⟩
    obtain rfl := List.mem_singleton.1 ht
    exact ⟨rfl, rfl⟩
  refine ⟨((build_exact _ 0).1 hbuiltIn).1.2 hbuildable, _, rfl, ?_⟩
  obtain ⟨state, -, hlayers⟩ := (build_exact inTable 0).2 () rfl _ rfl
  exact hlayers

end Spec

end LayeredCache
