import LayeredCache.Proofs.Assembly.Chains

/-!
# Where the capacity hint goes

The capacity stage comes right after the custom layers and looks at the outermost of them only. A layer that
evicts gets the hint if it is that one, and keeps the capacity that the properties give it otherwise. If the
outermost custom layer has no attribute for a capacity, then no layer gets the hint.
-/

namespace LayeredCache

variable {E : Extension}

/-! ## Capacities of layers -/

lemma Capacity.count_of_ofInt {n : Int} {capacity : Capacity} (h : ofInt n = .ok capacity) :
    (capacity.count : Int) = n := by
  rw [ofInt] at h
  split at h
  · rw [← Except.ok.inj h]
    show (n.toNat : Int) = n
    omega
  · cases h

namespace Layer

variable {layer layer' : Layer E} {n : Int} {m : Nat}

/-- The capacity of a layer that evicts. -/
def capacity? : Layer E → Option Nat
  | ⟨.lru, own⟩ => some (Lru.capacity own).count
  | ⟨.fifo, own⟩ => some (Fifo.capacity own).count
  | _ => none

/-- The layer has an attribute of a name. -/
def exposes (layer : Layer E) (name : String) : Bool :=
  layer.kind.model.attributes.configurable layer.own && (layer.kind.model.attributes.kind? layer.own name).isSome

lemma exists_capacity? : (∃ m, layer.capacity? = some m) ↔ layer.kind = .lru ∨ layer.kind = .fifo := by
  obtain ⟨kind, own⟩ := layer
  cases kind <;> simp [capacity?]

lemma kind_of_capacity? (h : layer.capacity? = some m) : layer.kind = .lru ∨ layer.kind = .fifo :=
  exists_capacity?.1 ⟨m, h⟩

lemma exposes_of_capacity? (h : layer.capacity? = some m) : layer.exposes "size" = true := by
  obtain ⟨kind, own⟩ := layer
  obtain rfl | rfl := kind_of_capacity? h <;> rfl

lemma resize_of_exposes (h : layer.exposes "size" = true) (hresize : layer.resize n = .ok layer') :
    ∃ own, layer.kind.model.attributes.assign "size" (.int n) layer.own = (.ok (), own) ∧
      layer' = ⟨layer.kind, own⟩ := by
  rw [resize, if_pos (Bool.and_eq_true_iff.1 h)] at hresize
  split at hresize
  · rename_i own hassign
    exact ⟨own, hassign, (Except.ok.inj hresize).symm⟩
  · cases hresize

lemma resize_of_not_exposes (h : layer.exposes "size" = false) : layer.resize n = .ok layer :=
  if_neg fun hsize => Bool.false_ne_true (h.symm.trans (Bool.and_eq_true_iff.2 hsize))

/-- A layer that evicts takes the capacity it is given. -/
lemma capacity?_of_resize (hresize : layer.resize n = .ok layer') (h : layer'.capacity? = some m) : (m : Int) = n := by
  have hkind := kind_of_capacity? h
  rw [kind_of_resize hresize] at hkind
  obtain ⟨kind, own⟩ := layer
  obtain rfl | rfl := hkind
  · rw [show (⟨.lru, own⟩ : Layer E) = ⟨.lru, Lru.mk own.order own.capacity⟩ from rfl, resize_lru] at hresize
    obtain ⟨capacity, hcapacity, rfl⟩ := map_eq_ok.1 hresize
    exact Option.some.inj h ▸ Capacity.count_of_ofInt hcapacity
  · rw [show (⟨.fifo, own⟩ : Layer E) = ⟨.fifo, Fifo.mk own.queue own.capacity⟩ from rfl, resize_fifo] at hresize
    obtain ⟨capacity, hcapacity, rfl⟩ := map_eq_ok.1 hresize
    exact Option.some.inj h ▸ Capacity.count_of_ofInt hcapacity

/-- What a capacity makes of a layer: it is assigned, and is the capacity if the layer evicts, or the layer has no
attribute for it and does not evict. -/
inductive Resized (n : Int) (layer : Layer E) : Layer E → Prop
  | assigned {own} : layer.exposes "size" = true →
    layer.kind.model.attributes.assign "size" (.int n) layer.own = (.ok (), own) →
    (∀ m, capacity? ⟨layer.kind, own⟩ = some m → (m : Int) = n) → Resized n layer ⟨layer.kind, own⟩
  | kept : layer.exposes "size" = false → layer.capacity? = none → Resized n layer layer

lemma resized_of_resize (hresize : layer.resize n = .ok layer') : layer.Resized n layer' := by
  cases hexposes : layer.exposes "size" with
  | true =>
    obtain ⟨own, hassign, rfl⟩ := resize_of_exposes hexposes hresize
    exact .assigned hexposes hassign fun m => capacity?_of_resize hresize
  | false =>
    obtain rfl := Except.ok.inj ((resize_of_not_exposes hexposes).symm.trans hresize)
    refine .kept hexposes (Option.eq_none_iff_forall_ne_some.2 fun m hm => ?_)
    exact Bool.false_ne_true (hexposes.symm.trans (exposes_of_capacity? hm))

end Layer

namespace Spec

variable {spec : Spec E} {now : Nat} {stack : Stack E} {n : Int}

/-- The capacity that the properties give to every layer that evicts, if the hint does not replace it. -/
structure GivesCapacity (spec : Spec E) (m : Nat) : Prop where
  property : spec.Reads "size" 32 (· = m)
  standard : spec.properties.get? "size" = none → m = 1024

lemma givesCapacity {capacity : Capacity} (h : spec.propertyCapacity = .ok capacity) :
    spec.GivesCapacity capacity.count := by
  rw [propertyCapacity, reading] at h
  cases hsize : spec.properties.get? "size" with
  | none =>
    rw [hsize] at h
    refine ⟨fun raw hraw => ?_, fun _ => Except.ok.inj h ▸ rfl⟩
    rw [hsize] at hraw
    cases hraw
  | some raw =>
    rw [hsize] at h
    refine ⟨fun raw' hraw => ?_, fun hnone => ?_⟩
    · obtain rfl := Option.some.inj (hsize.symm.trans hraw)
      simp only [PropertyKind.coerce, readInteger] at h
      cases hread : Decimal.readSigned 32 raw.toList with
      | error fault =>
        rw [hread] at h
        cases h
      | ok n =>
        rw [hread] at h
        exact ⟨n, rfl, (Capacity.count_of_ofInt h).symm⟩
    · rw [hsize] at hnone
      cases hnone

/-- A new layer that evicts has the capacity that the properties give. -/
lemma givesCapacity_of_fresh {layer : Layer E} {m : Nat} (hfresh : spec.fresh now layer.kind = .ok layer)
    (h : layer.capacity? = some m) : spec.GivesCapacity m := by
  obtain ⟨kind, own⟩ := layer
  obtain rfl | rfl := Layer.kind_of_capacity? h
  · rw [fresh_lru] at hfresh
    obtain ⟨capacity, hcapacity, hlayer⟩ := map_eq_ok.1 hfresh
    cases hlayer
    exact Option.some.inj h ▸ givesCapacity hcapacity
  · rw [fresh_fifo] at hfresh
    obtain ⟨capacity, hcapacity, hlayer⟩ := map_eq_ok.1 hfresh
    cases hlayer
    exact Option.some.inj h ▸ givesCapacity hcapacity

/-- No standard layer evicts. -/
lemma capacity?_of_mem_standardLayers {layer : Layer E} (h : layer ∈ spec.standardLayers now) :
    layer.capacity? = none := by
  refine Option.eq_none_iff_forall_ne_some.2 fun m hm => ?_
  rcases of_mem_standardLayers h with ⟨-, hlru, hfifo⟩ | rfl
  · exact (Layer.kind_of_capacity? hm).elim hlru hfifo
  · cases hm

/-- If a cache is built over the perpetual storage, a capacity hint goes to the outermost custom layer or to none.
The custom layers beneath are new, and those that evict have the capacity that the properties give. The outermost
one has been new and has got the hint, if it has an attribute for it. -/
theorem size_binds_outermost (hperpetual : spec.storage.isPerpetual = true) (hbuild : spec.build now = .ok stack)
    (hsize : spec.size = some n) (hcustom : spec.kinds ≠ []) :
    ∃ inner made outermost,
      stack = .ofLayers (.empty spec.id) (inner ++ outermost :: spec.standardLayers now).reverse ∧
      (inner ++ [outermost]).map Layer.kind = spec.kinds ∧
      (∀ layer ∈ inner, spec.fresh now layer.kind = .ok layer ∧
        ∀ m, layer.capacity? = some m → spec.GivesCapacity m) ∧
      spec.fresh now outermost.kind = .ok made ∧ made.Resized n outermost ∧
      ∀ layer ∈ spec.standardLayers now, layer.capacity? = none := by
  obtain ⟨-, -, layers, layers', hlayers, hsized, rfl⟩ := (build_eq_ok hperpetual).1 hbuild
  cases hsized with
  | unset hnone =>
    rw [hsize] at hnone
    cases hnone
  | bare => exact absurd hlayers.kinds_eq.symm hcustom
  | @last n' inner made outermost hsome hresize =>
    obtain rfl := Option.some.inj (hsize.symm.trans hsome)
    have hkind := Layer.kind_of_resize hresize
    obtain ⟨hinner, hmade⟩ := List.forall_mem_append.1 hlayers.fresh
    refine ⟨inner, made, outermost, ?_, ?_, fun layer hlayer => ⟨hinner layer hlayer, fun m =>
      givesCapacity_of_fresh (hinner layer hlayer)⟩, ?_, Layer.resized_of_resize hresize, fun layer =>
      capacity?_of_mem_standardLayers⟩
    · rw [Stack.wrapAll_base, List.append_assoc, List.singleton_append]
    · rw [← hlayers.kinds_eq, List.map_append, List.map_append, List.map_singleton, List.map_singleton, hkind]
    · rw [hkind]
      exact hmade made (List.mem_singleton_self made)

/-- A cache for one entry, with some custom decorators. -/
def keepsOne (kinds : List (DecoratorKind .nothing)) : Spec .nothing :=
  { Spec.new "users" with
    decorators := kinds.map .decorator
    size := some 1 }

/-- Of two layers that evict the outer one gets the hint, and the inner one has the standard capacity. -/
theorem size_binds_outermost_keepsOne : ∃ inner outermost : Layer .nothing,
    (keepsOne [.fifo, .lru]).build 0 = .ok (.ofLayers (.empty "users")
      [⟨.synchronized, Synchronized.free⟩, ⟨.logging, Logging.empty⟩, outermost, inner]) ∧
    inner.kind = .fifo ∧ inner.capacity? = some 1024 ∧
    outermost.kind = .lru ∧ outermost.capacity? = some 1 := by
  obtain ⟨stack, hbuild⟩ : ∃ stack, (keepsOne [.fifo, .lru]).build 0 = .ok stack := ⟨_, rfl⟩
  obtain ⟨inner, made, outermost, rfl, hkinds, hinner, hmade, hresized, -⟩ :=
    size_binds_outermost rfl hbuild rfl (by decide)
  have hsplit : inner.map Layer.kind ++ [outermost.kind] = [.fifo] ++ [.lru] := by
    rw [← List.map_singleton, ← List.map_append]
    exact hkinds
  obtain ⟨hbeneath, hlast⟩ := List.append_inj' hsplit rfl
  obtain ⟨fifo, rfl, hfifo⟩ := List.map_eq_singleton_iff.1 hbeneath
  have hlru := List.singleton_inj.1 hlast
  obtain ⟨m, hm⟩ := Layer.exists_capacity?.2 (.inr hfifo)
  obtain ⟨m', hm'⟩ := Layer.exists_capacity?.2 (.inl hlru)
  refine ⟨fifo, outermost, hbuild, hfifo, ?_, hlru, ?_⟩
  · obtain ⟨-, hgives⟩ := hinner fifo (List.mem_singleton_self fifo)
    rw [hm, (hgives m hm).standard rfl]
  · cases hresized with
    | assigned _ _ hcapacity =>
      obtain rfl : m' = 1 := by exact_mod_cast hcapacity m' hm'
      exact hm'
    | kept _ hnone =>
      rw [hnone] at hm'
      cases hm'

/-- The hint does not reach a layer that evicts beneath one that does not: it is the outermost layer with an
attribute for the hint, and after two puts there are two entries. -/
theorem size_misses_lru :
    ∃ (layers : List (Layer .nothing)) (session : Session _ Outcome),
      (keepsOne [.lru, .logging]).build 0 = .ok (.ofLayers (.empty "users")
        (layers ++ (keepsOne [.lru, .logging]).standardLayers 0).reverse) ∧
      layers.map Layer.kind = (keepsOne [.lru, .logging]).kinds ∧
      (layers.reverse.find? (·.exposes "size")).bind Layer.capacity? = some 1024 ∧
      Session.Reaches (Chain.cache .perpetual _) (fun _ => True)
        (.new (Chain.ofLayers (.empty "users")
          (layers ++ (keepsOne [.lru, .logging]).standardLayers 0).reverse) 0) session ∧
      (Chain.bottom _ session.state).keys = ["b", "a"] :=
  ⟨[⟨.lru, Lru.mk .empty .standard⟩, ⟨.logging, Logging.empty⟩], _, rfl, rfl, rfl,
    Session.reaches_performAll _ 7 [(1, .put "a" .null), (1, .put "b" .null)] _ (by simp [Operation.Puts]),
    by decide +kernel⟩

end Spec

end LayeredCache
