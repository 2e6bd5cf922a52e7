import LayeredCache.Proofs.Assembly.Buildable
import LayeredCache.Proofs.Layer.Keeping

/-!
# Chains over the perpetual storage

A specification of built-in layers is built as the perpetual storage under layers in their first state:
the custom ones, and around them the standard ones. A list of such layers, outermost first, is a chain, so
what holds of the chain is proved layer after layer.
-/

namespace LayeredCache

variable {E : Extension}

/-! ## Parts of the state -/

namespace Chain

/-- The storage beneath all layers. -/
def bottom : (ds : List (DecoratorKind E)) → Chain .perpetual ds → Perpetual
  | [], p => p
  | _ :: ds, s => bottom ds s.2

/-- The capacities of the layers that evict, outermost first. -/
def capacities : (ds : List (DecoratorKind E)) → Chain .perpetual ds → List Nat
  | [], _ => []
  | .lru :: ds, s => (Lru.capacity s.1).count :: capacities ds s.2
  | .fifo :: ds, s => (Fifo.capacity s.1).count :: capacities ds s.2
  | _ :: ds, s => capacities ds s.2

/-- The state of a storage under some layers, outermost first. -/
def ofLayers (p : Perpetual) : (layers : List (Layer E)) → Chain .perpetual (layers.map Layer.kind)
  | [] => p
  | layer :: layers => (layer.own, ofLayers p layers)

lemma bottom_ofLayers (p : Perpetual) (layers : List (Layer E)) : bottom _ (ofLayers p layers) = p := by
  induction layers with
  | nil => rfl
  | cons layer layers ih => exact ih

end Chain

/-- A storage under some layers, outermost first. -/
def Stack.ofLayers (p : Perpetual) (layers : List (Layer E)) : Stack E :=
  ⟨.perpetual, layers.map Layer.kind, Chain.ofLayers p layers⟩

lemma Stack.wrapAll_ofLayers (p : Perpetual) (inner outer : List (Layer E)) :
    (Stack.ofLayers p inner).wrapAll outer = Stack.ofLayers p (outer.reverse ++ inner) := by
  induction outer generalizing inner with
  | nil => rfl
  | cons layer outer ih =>
    rw [List.reverse_cons, List.append_assoc]
    exact ih (layer :: inner)

lemma Stack.wrapAll_base (p : Perpetual) (layers : List (Layer E)) :
    (Stack.base .perpetual p).wrapAll layers = Stack.ofLayers p layers.reverse := by
  rw [← List.append_nil layers.reverse, ← Stack.wrapAll_ofLayers]
  rfl

/-! ## What always holds -/

namespace Chain

variable {p : Perpetual} {layers : List (Layer E)} {values : Json → Prop}
  {holds holds' : Chain .perpetual (layers.map Layer.kind) → Prop}

/-- From the state of some layers on, the property holds of every state that operations lead to, as long as
the values that are put are among `values`. -/
def Always (values : Json → Prop) (p : Perpetual) (layers : List (Layer E))
    (holds : Chain .perpetual (layers.map Layer.kind) → Prop) : Prop :=
  ∃ kept, (cache .perpetual (layers.map Layer.kind)).Keeps values kept ∧ kept (ofLayers p layers) ∧
    ∀ s, kept s → holds s

lemma Always.mono (h : Always values p layers holds) (himp : ∀ s, holds s → holds' s) :
    Always values p layers holds' := by
  obtain ⟨kept, hkeeps, hfirst, hholds⟩ := h
  exact ⟨kept, hkeeps, hfirst, fun s hs => himp s (hholds s hs)⟩

lemma Always.and (h : Always values p layers holds) (h' : Always values p layers holds') :
    Always values p layers fun s => holds s ∧ holds' s := by
  obtain ⟨kept, hkeeps, hfirst, hholds⟩ := h
  obtain ⟨kept', hkeeps', hfirst', hholds'⟩ := h'
  exact ⟨_, hkeeps.and hkeeps', ⟨hfirst, hfirst'⟩, fun s hs => ⟨hholds s hs.1, hholds' s hs.2⟩⟩

/-- A layer around a chain acts on it by the operations of the chain only. -/
lemma Always.cons (h : Always values p layers holds) {layer : Layer E}
    (hbuiltIn : ∀ added, layer.kind ≠ .added added)
    (htexts : ∀ value, values value → values (Serialized.encode value)) :
    Always values p (layer :: layers) fun s => holds s.2 := by
  obtain ⟨kept, hkeeps, hfirst, hholds⟩ := h
  exact ⟨_, layer.kind.keeps hbuiltIn htexts hkeeps, hfirst, fun s hs => hholds s.2 hs⟩

/-- What always holds also holds after anything that threads do. -/
lemma Always.reaches (h : Always values p layers holds) {now : Nat}
    {session : Session (Chain .perpetual (layers.map Layer.kind)) Outcome}
    (hreaches : Session.Reaches (cache .perpetual _) values (.new (ofLayers p layers) now) session) :
    holds session.state := by
  obtain ⟨kept, hkeeps, hfirst, hholds⟩ := h
  exact hholds _ (hreaches.holds hkeeps hfirst)

end Chain

/-! ## Layers in their first state -/

/-- A layer in its first state, of a built-in kind that can be a custom decorator. -/
inductive Layer.New : Layer E → Prop where
  | lru (capacity) : New ⟨.lru, Lru.mk .empty capacity⟩
  | fifo (capacity) : New ⟨.fifo, Fifo.mk [] capacity⟩
  | scheduled (interval now) : New ⟨.scheduled, Scheduled.mk interval now⟩
  | serialized : New ⟨.serialized, Serialized.mk⟩
  | logging : New ⟨.logging, Logging.empty⟩
  | synchronized : New ⟨.synchronized, Synchronized.free⟩

lemma Layer.New.ne_added {layer : Layer E} (h : layer.New) : ∀ added, layer.kind ≠ .added added := by
  cases h <;> simp

lemma Layer.New.resize {layer layer' : Layer E} {n : Int} (h : layer.New)
    (hresize : layer.resize n = .ok layer') : layer'.New := by
  -- a layer without a capacity stays as it is
  have hkept (hkind : layer.kind = .scheduled ∨ layer.kind = .serialized ∨ layer.kind = .logging ∨
      layer.kind = .synchronized ∨ layer.kind = .blocking) : layer'.New := by
    rw [Layer.resize_of_kind hkind] at hresize
    rw [← Except.ok.inj hresize]
    exact h
  cases h with
  | lru =>
    rw [Layer.resize_lru] at hresize
    obtain ⟨capacity, -, rfl⟩ := map_eq_ok.1 hresize
    exact .lru capacity
  | fifo =>
    rw [Layer.resize_fifo] at hresize
    obtain ⟨capacity, -, rfl⟩ := map_eq_ok.1 hresize
    exact .fifo capacity
  | scheduled => exact hkept (by simp)
  | serialized => exact hkept (by simp)
  | logging => exact hkept (by simp)
  | synchronized => exact hkept (by simp)

namespace Spec

variable {spec : Spec E} {now : Nat}

lemma new_of_fresh {kind : DecoratorKind E} {layer : Layer E} (hbuiltIn : ∀ added, kind ≠ .added added)
    (hblocking : kind ≠ .blocking) (h : spec.fresh now kind = .ok layer) : layer.New := by
  cases kind with
  | lru =>
    rw [fresh_lru] at h
    obtain ⟨capacity, -, rfl⟩ := map_eq_ok.1 h
    exact .lru capacity
  | fifo =>
    rw [fresh_fifo] at h
    obtain ⟨capacity, -, rfl⟩ := map_eq_ok.1 h
    exact .fifo capacity
  | scheduled =>
    rw [fresh_scheduled] at h
    obtain ⟨interval, -, rfl⟩ := map_eq_ok.1 h
    exact .scheduled interval now
  | serialized =>
    rw [← Except.ok.inj (fresh_serialized.symm.trans h)]
    exact .serialized
  | logging =>
    rw [← Except.ok.inj (fresh_logging.symm.trans h)]
    exact .logging
  | synchronized =>
    rw [← Except.ok.inj (fresh_synchronized.symm.trans h)]
    exact .synchronized
  | blocking => exact absurd rfl hblocking
  | added added => exact absurd rfl (hbuiltIn added)

lemma Sized.new {layers layers' : List (Layer E)} (h : spec.Sized layers layers')
    (hlayers : ∀ layer ∈ layers, layer.New) : ∀ layer ∈ layers', layer.New := by
  cases h with
  | unset => exact hlayers
  | bare => exact hlayers
  | last _ hresize =>
    rw [List.forall_mem_append, List.forall_mem_singleton] at hlayers ⊢
    exact ⟨hlayers.1, hlayers.2.resize hresize⟩

/-- A standard layer up to synchronization is in its first state and does not evict. -/
lemma of_mem_lockedLayers {layer : Layer E}
    (h : layer ∈ spec.syncedLayers now ++ [⟨.synchronized, Synchronized.free⟩]) :
    layer.New ∧ layer.kind ≠ .lru ∧ layer.kind ≠ .fifo := by
  simp only [syncedLayers, List.mem_append, List.mem_singleton] at h
  rcases h with (((h | h) | rfl) | rfl)
  · unfold scheduledLayers at h
    split at h
    · rw [List.mem_singleton.1 h]
      exact ⟨.scheduled .., nofun, nofun⟩
    · cases h
  · split at h
    · rw [List.mem_singleton.1 h]
      exact ⟨.serialized, nofun, nofun⟩
    · cases h
  · exact ⟨.logging, nofun, nofun⟩
  · exact ⟨.synchronized, nofun, nofun⟩

/-- The only other standard layer is blocking. -/
lemma of_mem_standardLayers {layer : Layer E} (h : layer ∈ spec.standardLayers now) :
    (layer.New ∧ layer.kind ≠ .lru ∧ layer.kind ≠ .fifo) ∨
      layer = ⟨.blocking, Blocking.empty spec.blockingTimeout⟩ := by
  rcases List.mem_append.1 h with h | h
  · exact .inl (of_mem_lockedLayers h)
  · split at h
    · exact .inr (List.mem_singleton.1 h)
    · cases h

lemma ne_added_of_mem_standardLayers {layer : Layer E} (h : layer ∈ spec.standardLayers now) :
    ∀ added, layer.kind ≠ .added added := by
  rcases of_mem_standardLayers h with ⟨hlayer, -, -⟩ | rfl
  · exact hlayer.ne_added
  · exact nofun

/-! ## The chain that is built -/

/-- The custom layers of a built cache in their first state, and the chain under the standard layers. -/
lemma BuiltIn.exists_custom {stack : Stack E} (h : spec.BuiltIn) (hbuild : spec.build now = .ok stack) :
    ∃ custom : List (Layer E), custom.map Layer.kind = spec.kinds ∧ (∀ layer ∈ custom, layer.New) ∧
      stack = .ofLayers (.empty spec.id) ((custom ++ spec.standardLayers now).reverse) := by
  obtain ⟨-, -, layers, layers', hlayers, hsized, rfl⟩ := (build_eq_ok (h.isPerpetual hbuild)).1 hbuild
  refine ⟨layers', hsized.kinds.trans hlayers.kinds_eq, hsized.new fun layer hlayer => ?_, ?_⟩
  · obtain ⟨t, ht, hkind⟩ := hlayers.exists_decoratorKind layer hlayer
    refine new_of_fresh (fun added heq => h.decorators added ?_) (ne_blocking_of_decoratorKind hkind)
      (hlayers.fresh layer hlayer)
    exact heq ▸ mem_kinds ht (decoratorKind_eq_ok.1 hkind).2
  · exact Stack.wrapAll_base ..

end Spec

end LayeredCache
