import LayeredCache.Assembly.Build
import Mathlib.Tactic.Common

/-!
# The steps of an assembly

What building a cache adds to a stack does not depend on the stack: every decorator comes as a layer with
a state of its own. So the stack that is built from a specification is its storage under a list of layers,
in which the first standard stage gives the outermost custom layer its capacity.
-/

namespace LayeredCache

variable {E : Extension}

/-! ## Layers on a stack -/

/-- A decorator with its own part of the state. -/
structure Layer (E : Extension) where
  kind : DecoratorKind E
  own : kind.model.State

namespace Stack

/-- The stack under some layers, innermost first. -/
def wrapAll (stack : Stack E) (layers : List (Layer E)) : Stack E :=
  layers.foldl (fun stack layer => stack.wrap layer.kind layer.own) stack

@[simp]
lemma wrapAll_nil (stack : Stack E) : stack.wrapAll [] = stack :=
  rfl

@[simp]
lemma wrapAll_cons (stack : Stack E) (layer : Layer E) (layers : List (Layer E)) :
    stack.wrapAll (layer :: layers) = (stack.wrap layer.kind layer.own).wrapAll layers :=
  rfl

lemma wrapAll_append (stack : Stack E) (inner outer : List (Layer E)) :
    stack.wrapAll (inner ++ outer) = (stack.wrapAll inner).wrapAll outer :=
  List.foldl_append ..

lemma storage_wrapAll (stack : Stack E) (layers : List (Layer E)) :
    (stack.wrapAll layers).storage = stack.storage := by
  induction layers generalizing stack with
  | nil => rfl
  | cons layer layers ih => exact ih _

lemma decorators_wrapAll (stack : Stack E) (layers : List (Layer E)) :
    (stack.wrapAll layers).decorators = (layers.map Layer.kind).reverse ++ stack.decorators := by
  induction layers generalizing stack with
  | nil => rfl
  | cons layer layers ih =>
    rw [wrapAll_cons, ih, List.map_cons, List.reverse_cons, List.append_assoc]
    rfl

end Stack

/-! ## What a reference makes -/

namespace LayerType

variable {t : LayerType E}

/-- Only the perpetual storage itself is made as one. -/
lemma isPerpetual_iff {kind : StorageKind E} (h : t.storage? = some kind) :
    t.isPerpetual = true ↔ kind = .perpetual := by
  obtain ⟨identity, makesStorage, makesDecorator⟩ := t
  cases makesStorage with
  | false => cases h
  | true =>
    rw [isPerpetual, beq_iff_eq]
    cases identity <;> cases h <;> simp

/-- So it is with blocking. -/
lemma isBlocking_iff {kind : DecoratorKind E} (h : t.decorator? = some kind) :
    t.isBlocking = true ↔ kind = .blocking := by
  obtain ⟨identity, makesStorage, makesDecorator⟩ := t
  cases makesDecorator with
  | false => cases h
  | true =>
    rw [isBlocking, beq_iff_eq]
    cases identity <;> cases h <;> simp

/-- What is made as a decorator has the name of the reference. -/
lemma name_of_decorator? {kind : DecoratorKind E} (h : t.decorator? = some kind) : t.name = kind.model.name := by
  obtain ⟨identity, makesStorage, makesDecorator⟩ := t
  cases makesDecorator with
  | false => cases h
  | true =>
    cases identity with
    | both storage decorator named =>
      cases h
      exact named
    | decorator kind' =>
      cases h
      rfl
    | _ => cases h

end LayerType

/-! ## Custom decorators -/

lemma map_eq_ok {ε α β : Type} {f : α → β} {x : Except ε α} {b : β} :
    x.map f = .ok b ↔ ∃ a, x = .ok a ∧ f a = b := by
  cases x <;> simp [Except.map]

/-- A state with properties assigned and the layer started. -/
def Attributes.bound {τ : Type} (attributes : Attributes τ) (id typeName : String)
    (properties : Properties) (state : τ) : Except CacheError τ :=
  match attributes.bind id typeName properties state with
  | (.error e, _) => .error e
  | (.ok (), state) => .ok state

namespace Spec

variable {spec : Spec E} {now : Nat} {stack stack' : Stack E}

/-- A new layer of a kind, with the properties of the specification. -/
def fresh (spec : Spec E) (now : Nat) (kind : DecoratorKind E) : Except CacheError (Layer E) :=
  match kind.model.make now with
  | .error source => .error (.instantiationFailed spec.id kind.model.name source)
  | .ok own =>
    (kind.model.attributes.bound spec.id kind.model.name spec.properties own).map fun own => ⟨kind, own⟩

/-- A new layer is made, its properties are assigned, and it is started. -/
lemma fresh_eq_ok {kind : DecoratorKind E} {layer : Layer E} : spec.fresh now kind = .ok layer ↔
    ∃ made own, kind.model.make now = .ok made ∧
      kind.model.attributes.bound spec.id kind.model.name spec.properties made = .ok own ∧
      ⟨kind, own⟩ = layer := by
  unfold fresh
  cases hmake : kind.model.make now with
  | error source => simp
  | ok made =>
    simp only [map_eq_ok, Except.ok.injEq, exists_and_left, exists_eq_left']

lemma kind_of_fresh {kind : DecoratorKind E} {layer : Layer E} (h : spec.fresh now kind = .ok layer) :
    layer.kind = kind := by
  obtain ⟨made, own, -, -, rfl⟩ := fresh_eq_ok.1 h
  rfl

lemma storageKind_eq_ok {t : LayerType E} {kind : StorageKind E} :
    spec.storageKind t = .ok kind ↔ t.storage? = some kind := by
  unfold storageKind
  cases t.storage? <;> simp

/-- A reference stands for a decorator exactly if it can make one that is not blocking. -/
lemma decoratorKind_eq_ok {t : LayerType E} {kind : DecoratorKind E} :
    spec.decoratorKind t = .ok kind ↔ t.isBlocking = false ∧ t.decorator? = some kind := by
  unfold decoratorKind
  cases hblocking : t.isBlocking with
  | true => simp
  | false => cases t.decorator? <;> simp

lemma ne_blocking_of_decoratorKind {t : LayerType E} {kind : DecoratorKind E}
    (h : spec.decoratorKind t = .ok kind) : kind ≠ .blocking := by
  rintro rfl
  obtain ⟨hblocking, hdecorator⟩ := decoratorKind_eq_ok.1 h
  rw [(LayerType.isBlocking_iff hdecorator).2 rfl] at hblocking
  cases hblocking

lemma addDecorator_eq_ok {t : LayerType E} : spec.addDecorator now stack t = .ok stack' ↔
    ∃ kind layer, spec.decoratorKind t = .ok kind ∧ spec.fresh now kind = .ok layer ∧
      stack' = stack.wrap layer.kind layer.own := by
  unfold addDecorator
  cases hkind : spec.decoratorKind t with
  | error e => simp
  | ok kind =>
    unfold fresh
    cases hmake : kind.model.make now with
    | error source => simp [hmake]
    | ok own =>
      simp only [hmake, Attributes.bound]
      rcases hbind : kind.model.attributes.bind spec.id kind.model.name spec.properties own with
        ⟨outcome, own'⟩
      cases outcome with
      | error e => simp [hmake, hbind, Except.map]
      | ok u => simp [hmake, hbind, Except.map, eq_comm]

/-- New layers for some references, innermost first. -/
structure Layered (spec : Spec E) (now : Nat) (ts : List (LayerType E)) (layers : List (Layer E)) :
    Prop where
  kinds : List.Forall₂ (fun t layer => spec.decoratorKind t = .ok layer.kind) ts layers
  fresh : ∀ layer ∈ layers, spec.fresh now layer.kind = .ok layer

/-- The new layers for some references are of the kinds that the references stand for. -/
lemma Layered.map_kind {ts : List (LayerType E)} {layers : List (Layer E)}
    (h : spec.Layered now ts layers) : ts.map LayerType.decorator? = (layers.map Layer.kind).map some := by
  have hkinds := h.kinds
  clear h
  induction hkinds with
  | nil => rfl
  | cons hkind _ ih => rw [List.map_cons, List.map_cons, List.map_cons, ih, (decoratorKind_eq_ok.1 hkind).2]

/-- Every new layer is of a kind that one of the references stands for. -/
lemma Layered.exists_decoratorKind {ts : List (LayerType E)} {layers : List (Layer E)}
    (h : spec.Layered now ts layers) :
    ∀ layer ∈ layers, ∃ t ∈ ts, spec.decoratorKind t = .ok layer.kind := by
  have hkinds := h.kinds
  clear h
  induction hkinds with
  | nil => simp
  | cons hkind _ ih =>
    refine List.forall_mem_cons.2 ⟨⟨_, List.mem_cons_self, hkind⟩, fun layer hlayer => ?_⟩
    obtain ⟨t, ht, hkind⟩ := ih layer hlayer
    exact ⟨t, List.mem_cons_of_mem _ ht, hkind⟩

lemma addDecorators_eq_ok {ts : List (LayerType E)} : spec.addDecorators now ts stack = .ok stack' ↔
    ∃ layers, spec.Layered now ts layers ∧ stack' = stack.wrapAll layers := by
  induction ts generalizing stack with
  | nil =>
    constructor
    · intro h
      exact ⟨[], ⟨.nil, by simp⟩, (Except.ok.inj h).symm⟩
    · rintro ⟨layers, ⟨hkinds, -⟩, rfl⟩
      cases hkinds
      rfl
  | cons t ts ih =>
    have hstep : spec.addDecorators now (t :: ts) stack = .ok stack' ↔
        ∃ next, spec.addDecorator now stack t = .ok next ∧ spec.addDecorators now ts next = .ok stack' := by
      rw [addDecorators]
      cases spec.addDecorator now stack t <;> simp
    rw [hstep]
    constructor
    · rintro ⟨next, hfirst, hrest⟩
      obtain ⟨kind, layer, hkind, hfresh, rfl⟩ := addDecorator_eq_ok.1 hfirst
      obtain ⟨layers, hlayers, rfl⟩ := ih.1 hrest
      obtain rfl := kind_of_fresh hfresh
      refine ⟨layer :: layers, ⟨.cons hkind hlayers.kinds, ?_⟩, rfl⟩
      exact List.forall_mem_cons.2 ⟨hfresh, hlayers.fresh⟩
    · rintro ⟨layers, ⟨hkinds, hfresh⟩, rfl⟩
      cases hkinds with
      | cons hkind hkinds =>
        obtain ⟨hfirst, hrest⟩ := List.forall_mem_cons.1 hfresh
        exact ⟨_, addDecorator_eq_ok.2 ⟨_, _, hkind, hfirst, rfl⟩, ih.2 ⟨_, ⟨hkinds, hrest⟩, rfl⟩⟩

end Spec

/-! ## Standard stages -/

namespace Spec

/-- The layer for an interval, if there is one. -/
def scheduledLayers (spec : Spec E) (now : Nat) : List (Layer E) :=
  match spec.clearInterval with
  | some ms => [⟨.scheduled, Scheduled.mk ms now⟩]
  | none => []

/-- The layers of the standard stages beneath synchronization, innermost first. -/
def syncedLayers (spec : Spec E) (now : Nat) : List (Layer E) :=
  spec.scheduledLayers now ++ (if spec.readWrite then [⟨.serialized, Serialized.mk⟩] else []) ++
  [⟨.logging, Logging.empty⟩]

/-- The layers of the standard stages, innermost first. -/
def standardLayers (spec : Spec E) (now : Nat) : List (Layer E) :=
  spec.syncedLayers now ++ [⟨.synchronized, Synchronized.free⟩] ++
  (if spec.blocking then [⟨.blocking, Blocking.empty spec.blockingTimeout⟩] else [])

end Spec

namespace Stage

variable {spec : Spec E} {now : Nat} {stack stack' : Stack E}

lemma applyEnabled_all (spec : Spec E) (now : Nat) (stack : Stack E) :
    applyEnabled spec now all stack =
      match apply spec now stack .size with
      | .error e => .error e
      | .ok sized => .ok (sized.wrapAll (spec.standardLayers now)) := by
  have hrest (sized : Stack E) : applyEnabled spec now [.scheduled, .serialized, .logging, .synchronized,
      .blocking] sized = .ok (sized.wrapAll (spec.standardLayers now)) := by
    obtain ⟨_, _, _, _, clearInterval, readWrite, blocking, _, _⟩ := spec
    cases clearInterval <;> cases readWrite <;> cases blocking <;> rfl
  rw [all, applyEnabled]
  cases hsize : spec.size with
  | none =>
    have happly : apply spec now stack .size = .ok stack := by rw [apply, hsize]
    have hdisabled : isEnabled spec .size = false := by rw [isEnabled, hsize]; rfl
    rw [happly, hdisabled]
    exact hrest stack
  | some n =>
    have henabled : isEnabled spec .size = true := by rw [isEnabled, hsize]; rfl
    rw [henabled, if_pos rfl]
    cases apply spec now stack .size with
    | error e => rfl
    | ok sized => exact hrest sized

end Stage

/-! ## The capacity stage -/

namespace Layer

/-- The layer with a capacity, if it has an attribute for one. -/
def resize (n : Int) (layer : Layer E) : Except CacheError (Layer E) :=
  if layer.kind.model.attributes.configurable layer.own ∧
      (layer.kind.model.attributes.kind? layer.own "size").isSome then
    match layer.kind.model.attributes.assign "size" (.int n) layer.own with
    | (.ok (), own) => .ok ⟨layer.kind, own⟩
    | (.error e, _) => .error e
  else .ok layer

lemma kind_of_resize {n : Int} {layer layer' : Layer E} (h : layer.resize n = .ok layer') :
    layer'.kind = layer.kind := by
  unfold resize at h
  split at h
  · split at h
    · rw [← Except.ok.inj h]
    · cases h
  · rw [← Except.ok.inj h]

end Layer

lemma Stage.bindSize_wrap (n : Int) (stack : Stack E) (layer : Layer E) :
    bindSize n (stack.wrap layer.kind layer.own) =
      (layer.resize n).map fun layer => stack.wrap layer.kind layer.own := by
  have hconfigurable : (stack.wrap layer.kind layer.own).configurable =
      layer.kind.model.attributes.configurable layer.own := rfl
  have hkind : (stack.wrap layer.kind layer.own).attributeKind? "size" =
      layer.kind.model.attributes.kind? layer.own "size" := rfl
  have hassign : (stack.wrap layer.kind layer.own).assign "size" (.int n) =
      ((layer.kind.model.attributes.assign "size" (.int n) layer.own).1,
        stack.wrap layer.kind (layer.kind.model.attributes.assign "size" (.int n) layer.own).2) := rfl
  rw [bindSize, Layer.resize, hconfigurable, hkind, hassign]
  by_cases h : layer.kind.model.attributes.configurable layer.own ∧
      (layer.kind.model.attributes.kind? layer.own "size").isSome
  · rw [if_pos h, if_pos h]
    rcases layer.kind.model.attributes.assign "size" (.int n) layer.own with ⟨outcome, own⟩
    cases outcome with
    | error e => rfl
    | ok u => rfl
  · rw [if_neg h, if_neg h]
    rfl

namespace Spec

variable {spec : Spec E} {now : Nat} {stack : Stack E}

/-- The capacity stage changes at most the last of some layers. -/
inductive Sized (spec : Spec E) : List (Layer E) → List (Layer E) → Prop where
  | unset {layers} : spec.size = none → Sized spec layers layers
  | bare : Sized spec [] []
  | last {n layers layer layer'} : spec.size = some n → layer.resize n = .ok layer' →
      Sized spec (layers ++ [layer]) (layers ++ [layer'])

lemma Sized.kinds {layers layers' : List (Layer E)} (h : spec.Sized layers layers') :
    layers'.map Layer.kind = layers.map Layer.kind := by
  cases h with
  | unset => rfl
  | bare => rfl
  | last _ hresize => rw [List.map_append, List.map_append, List.map_singleton, List.map_singleton,
      Layer.kind_of_resize hresize]

lemma apply_size_eq_ok {p : Perpetual} {layers : List (Layer E)} :
    Stage.apply spec now ((Stack.base .perpetual p).wrapAll layers) .size = .ok stack ↔
      ∃ layers', spec.Sized layers layers' ∧ stack = (Stack.base .perpetual p).wrapAll layers' := by
  rw [Stage.apply]
  cases hsize : spec.size with
  | none =>
    constructor
    · intro h
      exact ⟨layers, .unset hsize, (Except.ok.inj h).symm⟩
    · rintro ⟨layers', hsized, rfl⟩
      cases hsized with
      | unset => rfl
      | bare => rfl
      | last hsome =>
        rw [hsize] at hsome
        cases hsome
  | some n =>
    show Stage.bindSize n _ = _ ↔ _
    rcases List.eq_nil_or_concat layers with rfl | ⟨layers, layer, rfl⟩
    · -- the storage itself has no capacity
      have hbare : Stage.bindSize n (Stack.base (E := E) .perpetual p) = .ok (Stack.base .perpetual p) :=
        if_neg fun h => Bool.false_ne_true h.1
      rw [Stack.wrapAll_nil, hbare]
      constructor
      · intro h
        exact ⟨[], .bare, (Except.ok.inj h).symm⟩
      · rintro ⟨layers', hsized, rfl⟩
        have hnil := hsized.kinds
        rw [List.map_nil, List.map_eq_nil_iff] at hnil
        rw [hnil]
        rfl
    · rw [List.concat_eq_append, Stack.wrapAll_append, Stack.wrapAll_cons, Stack.wrapAll_nil,
        Stage.bindSize_wrap]
      constructor
      · intro h
        cases hresize : layer.resize n with
        | error e =>
          rw [hresize] at h
          cases h
        | ok layer' =>
          rw [hresize] at h
          refine ⟨_, .last hsize hresize, ?_⟩
          rw [Stack.wrapAll_append]
          exact (Except.ok.inj h).symm
      · rintro ⟨layers', hsized, rfl⟩
        generalize hlayers : layers ++ [layer] = whole at hsized
        cases hsized with
        | unset hnone =>
          rw [hsize] at hnone
          cases hnone
        | bare => simp at hlayers
        | last hsome hresize =>
          obtain ⟨rfl, hlast⟩ := List.append_inj' hlayers rfl
          obtain rfl := List.singleton_inj.1 hlast
          rw [hsize] at hsome
          obtain rfl := Option.some.inj hsome
          rw [hresize, Stack.wrapAll_append]
          rfl

/-! ## The whole assembly -/

lemma buildStorage_eq_ok {t : LayerType E} (hperpetual : t.isPerpetual = true) :
    spec.buildStorage t = .ok stack ↔ t.storage? = some .perpetual ∧ spec.id ≠ "" ∧
      stack = .base .perpetual (Perpetual.empty spec.id) := by
  rw [buildStorage, storageKind]
  cases hstorage : t.storage? with
  | none => simp
  | some kind =>
    obtain rfl := (LayerType.isPerpetual_iff hstorage).1 hperpetual
    by_cases hid : spec.id = ""
    · simp [StorageKind.model, Perpetual.make, hid]
    · simp [StorageKind.model, Perpetual.make, hid, Attributes.bind, Attributes.none, eq_comm]

/-- What is built around the perpetual storage: custom layers, of which the outermost has got its
capacity, and the standard layers. -/
theorem build_eq_ok (hperpetual : spec.storage.isPerpetual = true) : spec.build now = .ok stack ↔
    spec.storage.storage? = some .perpetual ∧ spec.id ≠ "" ∧
      ∃ layers layers', spec.Layered now spec.effectiveDecorators layers ∧ spec.Sized layers layers' ∧
        stack = (Stack.base .perpetual (Perpetual.empty spec.id)).wrapAll
          (layers' ++ spec.standardLayers now) := by
  rw [build]
  cases hstorage : spec.buildStorage spec.storage with
  | error e =>
    constructor
    · exact nofun
    · rintro ⟨hkind, hid, -⟩
      rw [(buildStorage_eq_ok hperpetual).2 ⟨hkind, hid, rfl⟩] at hstorage
      cases hstorage
  | ok bottom =>
    obtain ⟨hkind, hid, rfl⟩ := (buildStorage_eq_ok hperpetual).1 hstorage
    simp only [hperpetual, if_true]
    constructor
    · intro h
      cases hcustom : spec.addDecorators now spec.effectiveDecorators
          (.base .perpetual (Perpetual.empty spec.id)) with
      | error e =>
        rw [hcustom] at h
        cases h
      | ok custom =>
        obtain ⟨layers, hlayers, rfl⟩ := addDecorators_eq_ok.1 hcustom
        rw [hcustom] at h
        simp only [Stage.applyEnabled_all] at h
        split at h
        · cases h
        · rename_i sized hsized
          obtain ⟨layers', hlayers', rfl⟩ := apply_size_eq_ok.1 hsized
          rw [← Stack.wrapAll_append] at h
          exact ⟨hkind, hid, layers, layers', hlayers, hlayers', (Except.ok.inj h).symm⟩
    · rintro ⟨-, -, layers, layers', hlayers, hlayers', rfl⟩
      rw [addDecorators_eq_ok.2 ⟨layers, hlayers, rfl⟩]
      simp only [Stage.applyEnabled_all]
      rw [apply_size_eq_ok.2 ⟨layers', hlayers', rfl⟩, Stack.wrapAll_append]

end Spec

end LayeredCache
