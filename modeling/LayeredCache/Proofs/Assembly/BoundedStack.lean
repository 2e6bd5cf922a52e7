import LayeredCache.Proofs.Assembly.FreshLayers
import LayeredCache.Proofs.Layer.Evicting
import LayeredCache.Proofs.Layer.Standard

/-!
# A built cache is a bounded map

A specification with one layer that evicts, and around it any layers that keep every entry, builds a cache
that answers a single thread as a bounded map does, which empties itself when the interval of the
specification has passed.
-/

namespace LayeredCache

variable {E : Extension}

/-! ## Stacks that follow a reference -/

section

variable {V α : Type} {calls : Call → Prop} {ideal : Ideal V α} {a : α} {stack : Stack E}

/-- The stack follows the reference with the values in any form that can be stored. -/
def Stack.Follows (calls : Call → Prop) (stack : Stack E) (ideal : Ideal V α) (a : α) : Prop :=
  ∀ code : V → Json, (∀ v, (code v).Storable) → stack.cache.Follows calls ideal code stack.state a

/-- A layer in its first state that keeps every entry. -/
inductive Layer.Neutral : Layer E → Prop where
  | serialized : Neutral ⟨.serialized, Serialized.mk⟩
  | logging : Neutral ⟨.logging, Logging.empty⟩
  | synchronized : Neutral ⟨.synchronized, Synchronized.free⟩

lemma Stack.Follows.wrap {layer : Layer E} (h : stack.Follows calls ideal a) (hlayer : layer.Neutral) :
    (stack.wrap layer.kind layer.own).Follows calls ideal a := by
  intro code hcode
  cases hlayer with
  | serialized =>
    exact Serialized.follows hcode _ (h (Serialized.encode ∘ code) fun v => Json.storable_string _)
  | logging => exact Logging.follows _ (h code hcode)
  | synchronized => exact Synchronized.follows (h code hcode)

lemma Stack.Follows.wrapAll {layers : List (Layer E)} (h : stack.Follows calls ideal a)
    (hlayers : ∀ layer ∈ layers, layer.Neutral) : (stack.wrapAll layers).Follows calls ideal a := by
  induction layers generalizing stack with
  | nil => exact h
  | cons layer layers ih =>
    obtain ⟨hlayer, hlayers⟩ := List.forall_mem_cons.1 hlayers
    exact ih (h.wrap hlayer) hlayers

end

/-! ## The layers of the standard stages -/

section

variable {V α : Type} {ideal : Ideal V α} {a : α} {stack : Stack E}

/-- Scheduled clearing adds the interval, and without one nothing expires. -/
lemma Stack.Follows.scheduledLayers (spec : Spec E) (now : Nat)
    (hempty : ∀ now key a, ideal.get now key (ideal.clear now a) = (none, ideal.clear now a))
    (h : stack.Follows (fun _ => True) ideal a) :
    (stack.wrapAll (spec.scheduledLayers now)).Follows (fun call => call.later = false)
      (ideal.expiring spec.clearInterval) ⟨a, now⟩ := by
  intro code hcode
  unfold Spec.scheduledLayers
  cases spec.clearInterval with
  | none => exact ((h code hcode).unscheduled now).mono fun _ _ => trivial
  | some ms => exact Scheduled.follows ms now hempty (h code hcode)

/-- The standard stages add the interval, and blocking keeps no single thread waiting. -/
lemma Stack.Follows.standardLayers (spec : Spec E) (now thread : Nat)
    (hempty : ∀ now key a, ideal.get now key (ideal.clear now a) = (none, ideal.clear now a))
    (h : stack.Follows (fun _ => True) ideal a) :
    (stack.wrapAll (spec.standardLayers now)).Follows
      (fun call => call.later = false ∧ call.thread = thread) (ideal.expiring spec.clearInterval)
      ⟨a, now⟩ := by
  have hsynced : (stack.wrapAll (spec.syncedLayers now)).Follows (fun call => call.later = false)
      (ideal.expiring spec.clearInterval) ⟨a, now⟩ := by
    rw [Spec.syncedLayers, wrapAll_append, wrapAll_append]
    refine ((h.scheduledLayers spec now hempty).wrapAll fun layer hlayer => ?_).wrapAll fun layer hlayer => ?_
    · split at hlayer
      · rw [List.mem_singleton.1 hlayer]
        exact .serialized
      · cases hlayer
    · rw [List.mem_singleton.1 hlayer]
      exact .logging
  have hlocked := hsynced.wrap .synchronized
  intro code hcode
  rw [Spec.standardLayers, wrapAll_append, wrapAll_append]
  cases spec.blocking with
  | false => exact (hlocked code hcode).mono fun _ hcall => hcall.1
  | true => exact Blocking.follows spec.blockingTimeout thread (hlocked code hcode)

end

/-! ## The layer that evicts -/

namespace Eviction

/-- The kind of layer that evicts by a policy. -/
def kind : Eviction → DecoratorKind E
  | .leastRecent => .lru
  | .firstIn => .fifo

/-- A layer that evicts and does not track any key yet. -/
def layer (policy : Eviction) (capacity : Capacity) : Layer E :=
  match policy with
  | .leastRecent => ⟨.lru, Lru.mk .empty capacity⟩
  | .firstIn => ⟨.fifo, Fifo.mk [] capacity⟩

lemma fresh_kind (policy : Eviction) (spec : Spec E) (now : Nat) :
    spec.fresh now policy.kind = spec.propertyCapacity.map policy.layer := by
  cases policy with
  | leastRecent => exact Spec.fresh_lru
  | firstIn => exact Spec.fresh_fifo

lemma resize_layer (policy : Eviction) (capacity : Capacity) (n : Int) :
    (policy.layer capacity : Layer E).resize n = (Capacity.ofInt n).map policy.layer := by
  cases policy with
  | leastRecent => exact Layer.resize_lru ..
  | firstIn => exact Layer.resize_fifo ..

lemma follows {V : Type} (policy : Eviction) (capacity : Capacity) {stack : Stack E}
    (h : stack.Follows (V := V) (fun _ => True) Entries.ideal []) :
    (stack.wrap (policy.layer capacity).kind (policy.layer capacity).own).Follows (V := V)
      (fun _ => True) (BoundedMap.ideal policy capacity.count) .empty := by
  intro code hcode
  cases policy with
  | leastRecent => exact Lru.follows capacity (h code hcode)
  | firstIn => exact Fifo.follows capacity (h code hcode)

end Eviction

/-! ## The custom layers -/

namespace Spec

variable {spec : Spec E} {now : Nat} {policy : Eviction} {inner outer : List (DecoratorKind E)}

/-- The capacity of the layer that evicts: the size stage gives one to the outermost custom layer, and
otherwise it is the property. -/
def evictionCapacity (spec : Spec E) (outermost : Bool) : Except CacheError Capacity :=
  match spec.size with
  | some n => if outermost then Capacity.ofInt n else spec.propertyCapacity
  | none => spec.propertyCapacity

lemma neutral_of_fresh {layer : Layer E} (h : spec.fresh now layer.kind = .ok layer)
    (hkind : layer.kind = .serialized ∨ layer.kind = .logging ∨ layer.kind = .synchronized) :
    layer.Neutral := by
  rcases hkind with hkind | hkind | hkind
  all_goals rw [hkind] at h
  · rw [← Except.ok.inj (fresh_serialized.symm.trans h)]
    exact .serialized
  · rw [← Except.ok.inj (fresh_logging.symm.trans h)]
    exact .logging
  · rw [← Except.ok.inj (fresh_synchronized.symm.trans h)]
    exact .synchronized

/-- With one layer that evicts, the custom layers are that layer, with its capacity, and new layers of the
other kinds. -/
lemma Sized.split_fresh {layers layers' : List (Layer E)} (hsized : spec.Sized layers layers')
    (hfresh : ∀ layer ∈ layers, spec.fresh now layer.kind = .ok layer)
    (hkinds : layers.map Layer.kind = inner ++ policy.kind :: outer)
    (hothers : ∀ kind ∈ outer,
      kind = .scheduled ∨ kind = .serialized ∨ kind = .logging ∨ kind = .synchronized) :
    ∃ capacity within around, spec.evictionCapacity outer.isEmpty = .ok capacity ∧
      layers' = within ++ policy.layer capacity :: around ∧ within.map Layer.kind = inner ∧
      around.map Layer.kind = outer ∧
      ∀ layer ∈ within ++ around, spec.fresh now layer.kind = .ok layer := by
  obtain ⟨within, rest, rfl, hwithin, hrest⟩ := List.map_eq_append_iff.1 hkinds
  obtain ⟨evicting, around, rfl, hevicting, haround⟩ := List.map_eq_cons_iff.1 hrest
  rw [List.forall_mem_append, List.forall_mem_cons] at hfresh
  obtain ⟨hfreshWithin, hfreshEvicting, hfreshAround⟩ := hfresh
  have hnew : ∀ layer ∈ within ++ around, spec.fresh now layer.kind = .ok layer :=
    List.forall_mem_append.2 ⟨hfreshWithin, hfreshAround⟩
  rw [hevicting, Eviction.fresh_kind] at hfreshEvicting
  obtain ⟨capacity, hcapacity, rfl⟩ := map_eq_ok.1 hfreshEvicting
  generalize hwhole : within ++ policy.layer capacity :: around = whole at hsized
  cases hsized with
  | unset hsize =>
    refine ⟨capacity, within, around, ?_, hwhole.symm, hwithin, haround, hnew⟩
    rw [evictionCapacity, hsize, hcapacity]
  | bare => simp at hwhole
  | last hsize hresize =>
    rename_i n init last last'
    rw [evictionCapacity, hsize]
    rcases List.eq_nil_or_concat around with rfl | ⟨others, other, rfl⟩
    · -- the layer that evicts is the outermost one
      obtain ⟨rfl, hlast⟩ := List.append_inj' hwhole rfl
      obtain rfl := List.singleton_inj.1 hlast
      rw [Eviction.resize_layer] at hresize
      obtain ⟨resized, hresized, rfl⟩ := map_eq_ok.1 hresize
      subst haround
      exact ⟨resized, within, [], hresized, rfl, hwithin, rfl, hnew⟩
    · -- the outermost layer has no capacity
      rw [List.concat_eq_append] at hwhole haround hnew
      rw [← List.cons_append, ← List.append_assoc] at hwhole
      obtain ⟨rfl, hlast⟩ := List.append_inj' hwhole rfl
      obtain rfl := List.singleton_inj.1 hlast
      have hother : other.kind ∈ outer := by
        rw [← haround]
        exact List.mem_map_of_mem (List.mem_append_right _ List.mem_cons_self)
      have hneutral : other.resize n = .ok other := by
        refine Layer.resize_of_kind ?_
        rcases hothers _ hother with h | h | h | h <;> simp [h]
      rw [hneutral] at hresize
      obtain rfl := Except.ok.inj hresize
      refine ⟨capacity, within, others ++ [other], ?_, by simp, hwithin, haround, hnew⟩
      have hcons : outer.isEmpty = false := List.isEmpty_eq_false_iff_exists_mem.2 ⟨_, hother⟩
      rw [hcons]
      exact hcapacity

/-- With one layer that evicts, the custom layers are that layer, with its capacity, and layers around it
that keep every entry. -/
lemma Sized.split {ts : List (LayerType E)} {layers layers' : List (Layer E)}
    (hsized : spec.Sized layers layers') (hlayers : spec.Layered now ts layers)
    (hkinds : ts.map LayerType.decorator? = (inner ++ policy.kind :: outer).map some)
    (hothers : ∀ kind ∈ inner ++ outer, kind = .serialized ∨ kind = .logging ∨ kind = .synchronized) :
    ∃ capacity within around, spec.evictionCapacity outer.isEmpty = .ok capacity ∧
      layers' = within ++ policy.layer capacity :: around ∧ (∀ layer ∈ within, layer.Neutral) ∧
      ∀ layer ∈ around, layer.Neutral := by
  have hmap : layers.map Layer.kind = inner ++ policy.kind :: outer :=
    List.map_injective_iff.2 (Option.some_injective _) (hlayers.map_kind.symm.trans hkinds)
  obtain ⟨capacity, within, around, hcapacity, hlayers', rfl, rfl, hfresh⟩ :=
    hsized.split_fresh hlayers.fresh hmap fun kind hkind => .inr (hothers kind (List.mem_append_right _ hkind))
  have hneutral : ∀ layer ∈ within ++ around, layer.Neutral := fun layer hlayer =>
    neutral_of_fresh (hfresh layer hlayer)
      (hothers _ (List.map_append ▸ List.mem_map_of_mem (f := Layer.kind) hlayer))
  exact ⟨capacity, within, around, hcapacity, hlayers', List.forall_mem_append.1 hneutral⟩

/-- A cache with one layer that evicts, and layers around it that keep every entry, answers every program
of a thread as a bounded map that empties itself when the interval has passed. -/
theorem run_build_eq_boundedMap {stack : Stack E} (hbuild : spec.build now = .ok stack)
    (hperpetual : spec.storage.isPerpetual = true)
    (hkinds : spec.effectiveDecorators.map LayerType.decorator? =
      (inner ++ policy.kind :: outer).map some)
    (hothers : ∀ kind ∈ inner ++ outer, kind = .serialized ∨ kind = .logging ∨ kind = .synchronized) :
    ∃ capacity, spec.evictionCapacity outer.isEmpty = .ok capacity ∧
      ∀ (thread : Nat) (program : List (Nat × Operation { v : Json // v.Storable })),
        (stack.cache.run thread (program.map fun (now, operation) => (now, operation.map Subtype.val))
            stack.state).map Prod.fst =
          some ((((BoundedMap.ideal policy capacity.count).expiring spec.clearInterval).run program
            ⟨.empty, now⟩).map fun answer => .ok (answer.map Subtype.val)) := by
  obtain ⟨-, -, layers, layers', hlayers, hsized, rfl⟩ := (build_eq_ok hperpetual).1 hbuild
  obtain ⟨capacity, within, around, hcapacity, rfl, hwithin, haround⟩ :=
    hsized.split hlayers hkinds hothers
  refine ⟨capacity, hcapacity, fun thread program => ?_⟩
  have hbase : (Stack.base (E := E) .perpetual (Perpetual.empty spec.id)).Follows
      (V := { v : Json // v.Storable }) (fun _ => True) Entries.ideal [] := fun code _ =>
    Perpetual.follows code rfl
  have hevicting := policy.follows capacity (hbase.wrapAll hwithin)
  have hstack := (hevicting.wrapAll haround).standardLayers spec now thread
    (BoundedMap.get_clear policy capacity.count)
  rw [Stack.wrapAll_append, Stack.wrapAll_append, Stack.wrapAll_cons]
  exact (hstack Subtype.val Subtype.property).run_eq thread (fun _ => ⟨rfl, rfl⟩) program

/-- Two keys are kept, by use, under the layers of every standard stage. -/
def keepsTwo : Spec .nothing :=
  { Spec.new "users" with
    decorators := [.decorator .serialized, .decorator .lru, .decorator .logging]
    properties := .ofList [("size", "2")]
    clearInterval := some (10 * nanosPerMilli)
    readWrite := true
    blocking := true }

/-- The key that was not looked up makes room for a third one; after the interval nothing is left. -/
theorem run_build_keepsTwo : ∃ stack, keepsTwo.build 0 = .ok stack ∧
    (stack.cache.run 7 [(0, .put "a" (.bool true)), (0, .put "b" .null), (1, .get "a"), (2, .put "c" .null),
        (3, .get "b"), (3, .get "a"), (3, .size), (10000001, .size)] stack.state).map Prod.fst =
      some [.ok .stored, .ok .stored, .ok (.found (some (.bool true))), .ok .stored, .ok (.found none),
        .ok (.found (some (.bool true))), .ok (.counted 2), .ok (.counted 0)] := by
  refine ⟨_, rfl, ?_⟩
  obtain ⟨capacity, hcapacity, hrun⟩ := @run_build_eq_boundedMap .nothing keepsTwo 0 .leastRecent
    [.serialized] [.logging] _ rfl rfl rfl (by decide)
  have htwo : keepsTwo.evictionCapacity false = .ok ⟨2, by decide⟩ := by rfl
  obtain rfl := Except.ok.inj (htwo.symm.trans hcapacity)
  have hprogram := hrun 7 [(0, .put "a" ⟨_, Json.storable_bool true⟩),
    (0, .put "b" ⟨_, Json.storable_null⟩), (1, .get "a"), (2, .put "c" ⟨_, Json.storable_null⟩),
    (3, .get "b"), (3, .get "a"), (3, .size), (10000001, .size)]
  simp only [List.map_cons, List.map_nil, Operation.map] at hprogram
  rw [hprogram]
  rfl

end Spec

end LayeredCache
