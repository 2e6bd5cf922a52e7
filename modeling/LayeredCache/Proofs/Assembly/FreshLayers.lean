import LayeredCache.Proofs.Assembly.Steps

/-!
# New layers of the built-in kinds

A layer with one attribute takes the property of that name, if the specification has one, and nothing else.
So the capacity of a layer that evicts and the interval of a layer that clears are properties read as
numbers, or the standard ones.
-/

namespace LayeredCache

variable {E : Extension}

private lemma map_map {ε α β γ : Type} (f : α → β) (g : β → γ) (x : Except ε α) :
    (x.map f).map g = x.map fun a => g (f a) := by
  cases x <;> rfl

/-! ## Binding to a single attribute -/

namespace Attributes

variable {τ : Type} {name : String} {kind : PropertyKind} {assign : PropertyValue → τ → Except CacheError τ}

/-- The state after the one attribute has got the value of a text, if there is one. -/
def assigned (name : String) (kind : PropertyKind) (assign : PropertyValue → τ → Except CacheError τ)
    (id : String) (state : τ) : Option String → Except CacheError τ
  | Option.none => .ok state
  | some raw =>
    match kind.coerce id name raw with
    | .error e => .error e
    | .ok value => assign value state

/-- A failure leaves the state as it was. -/
private def keepOnError (state : τ) : Except CacheError τ → Except CacheError Unit × τ
  | .ok state => (.ok (), state)
  | .error e => (.error e, state)

/-- Properties of other names do not count. -/
private lemma bindAll_of_notMem {entries : List (String × String)} (id : String) (state : τ)
    (h : ∀ entry ∈ entries, entry.1 ≠ name) :
    (single name kind assign).bindAll id entries state = (.ok (), state) := by
  induction entries with
  | nil => rfl
  | cons entry entries ih =>
    obtain ⟨other, raw⟩ := entry
    obtain ⟨hother, hentries⟩ := List.forall_mem_cons.1 h
    have hkind : (single name kind assign).kind? state other = Option.none := if_neg hother
    rw [bindAll, hkind]
    exact ih hentries

private lemma bindAll_single {entries : List (String × String)} (id : String) (state : τ)
    (h : Fields.Ascending entries) :
    (single name kind assign).bindAll id entries state =
      keepOnError state (assigned name kind assign id state (entries.lookup name)) := by
  induction entries with
  | nil => rfl
  | cons entry entries ih =>
    obtain ⟨other, raw⟩ := entry
    obtain ⟨hother, hentries⟩ := List.pairwise_cons.1 h
    by_cases hname : other = name
    · subst hname
      -- names ascend, so this is the only property of the name
      have hrest : ∀ entry ∈ entries, entry.1 ≠ other := fun entry hentry heq =>
        String.lt_irrefl _ (heq ▸ hother entry hentry)
      have hkind : (single other kind assign).kind? state other = some kind := if_pos rfl
      simp only [List.lookup_cons_self, bindAll, hkind, assigned]
      cases kind.coerce id other raw with
      | error e => rfl
      | ok value =>
        have hassign : (single other kind assign).assign other value state =
            keepOnError state (assign value state) := (if_pos rfl).trans (by cases assign value state <;> rfl)
        simp only [hassign]
        cases assign value state with
        | error e => rfl
        | ok state => exact bindAll_of_notMem id state hrest
    · have hkind : (single name kind assign).kind? state other = Option.none := if_neg hname
      have hne : (name == other) = false := beq_false_of_ne (Ne.symm hname)
      rw [bindAll, hkind, List.lookup_cons, hne]
      exact ih hentries

/-- A layer with one attribute takes the property of that name. -/
lemma bound_single (id typeName : String) (properties : Properties) (state : τ) :
    (single name kind assign).bound id typeName properties state =
      assigned name kind assign id state (properties.get? name) := by
  have hconfigurable : (single name kind assign).configurable state = true := rfl
  rw [bound, bind, hconfigurable, if_pos rfl, bindAll_single id state properties.ascending, Properties.get?]
  cases assigned name kind assign id state (properties.entries.lookup name) <;> rfl

end Attributes

/-! ## Properties of built-in layers -/

namespace Spec

variable {spec : Spec E} {now : Nat}

/-- What an attribute gets from the property of its name: a value that is read from the text, or the
standard one. -/
def reading {β : Type} (spec : Spec E) (name : String) (kind : PropertyKind)
    (read : PropertyValue → Except CacheError β) (standard : β) : Except CacheError β :=
  match spec.properties.get? name with
  | none => .ok standard
  | some raw =>
    match kind.coerce spec.id name raw with
    | .error e => .error e
    | .ok value => read value

/-- The capacity of a layer that evicts, as far as properties say. -/
def propertyCapacity (spec : Spec E) : Except CacheError Capacity :=
  spec.reading "size" .int Capacity.ofValue .standard

/-- The interval of a custom layer that clears. -/
def propertyInterval (spec : Spec E) : Except CacheError Nat :=
  spec.reading "clearInterval" .long Scheduled.intervalOf Scheduled.standardInterval

/-- A value that is read is put into the state as it is. -/
private lemma assigned_eq_reading {τ β : Type} {name : String} {kind : PropertyKind}
    {read : PropertyValue → Except CacheError β} {put : β → τ → τ} {own : τ} (standard : β)
    (hown : put standard own = own) :
    Attributes.assigned name kind (fun value s => (read value).map fun b => put b s) spec.id own
        (spec.properties.get? name) =
      (spec.reading name kind read standard).map fun b => put b own := by
  rw [reading]
  cases spec.properties.get? name with
  | none => exact congrArg Except.ok hown.symm
  | some raw =>
    simp only [Attributes.assigned]
    cases kind.coerce spec.id name raw <;> rfl

lemma fresh_lru : spec.fresh now .lru =
    spec.propertyCapacity.map fun capacity => ⟨.lru, Lru.mk .empty capacity⟩ := by
  show (Lru.attributes.bound spec.id _ spec.properties Lru.empty).map _ = _
  rw [Lru.attributes, Attributes.bound_single, assigned_eq_reading Capacity.standard rfl]
  exact map_map ..

lemma fresh_fifo : spec.fresh now .fifo =
    spec.propertyCapacity.map fun capacity => ⟨.fifo, Fifo.mk [] capacity⟩ := by
  show (Fifo.attributes.bound spec.id _ spec.properties Fifo.empty).map _ = _
  rw [Fifo.attributes, Attributes.bound_single, assigned_eq_reading Capacity.standard rfl]
  exact map_map ..

lemma fresh_scheduled : spec.fresh now .scheduled =
    spec.propertyInterval.map fun interval => ⟨.scheduled, Scheduled.mk interval now⟩ := by
  show (Scheduled.attributes.bound spec.id _ spec.properties (Scheduled.since now)).map _ = _
  rw [Scheduled.attributes, Attributes.bound_single,
    assigned_eq_reading (Scheduled.since now).interval rfl]
  exact map_map ..

lemma fresh_serialized : spec.fresh now .serialized = .ok ⟨.serialized, Serialized.mk⟩ :=
  rfl

lemma fresh_logging : spec.fresh now .logging = .ok ⟨.logging, Logging.empty⟩ :=
  rfl

lemma fresh_synchronized : spec.fresh now .synchronized = .ok ⟨.synchronized, Synchronized.free⟩ :=
  rfl

end Spec

/-! ## New capacities -/

namespace Layer

variable {n : Int}

private lemma resize_of_single (kind : DecoratorKind E)
    {assign : PropertyValue → kind.model.State → Except CacheError kind.model.State}
    (h : kind.model.attributes = .single "size" .int assign) (own : kind.model.State) :
    resize n ⟨kind, own⟩ = (assign (.int n) own).map fun own => ⟨kind, own⟩ := by
  simp only [resize, h, Attributes.single, if_true]
  cases assign (.int n) own <;> rfl

lemma resize_lru (order : Recency) (capacity : Capacity) :
    resize (E := E) n ⟨.lru, Lru.mk order capacity⟩ =
      (Capacity.ofInt n).map fun capacity => ⟨.lru, Lru.mk order capacity⟩ :=
  (resize_of_single .lru rfl (Lru.mk order capacity)).trans (map_map ..)

lemma resize_fifo (queue : List String) (capacity : Capacity) :
    resize (E := E) n ⟨.fifo, Fifo.mk queue capacity⟩ =
      (Capacity.ofInt n).map fun capacity => ⟨.fifo, Fifo.mk queue capacity⟩ :=
  (resize_of_single .fifo rfl (Fifo.mk queue capacity)).trans (map_map ..)

/-- A kind without a capacity keeps its state. -/
lemma resize_of_kind {layer : Layer E}
    (h : layer.kind = .scheduled ∨ layer.kind = .serialized ∨ layer.kind = .logging ∨
      layer.kind = .synchronized ∨ layer.kind = .blocking) : layer.resize n = .ok layer := by
  obtain ⟨kind, own⟩ := layer
  rcases h with rfl | rfl | rfl | rfl | rfl
  · exact if_neg fun hsize => Bool.false_ne_true hsize.2
  · exact if_neg fun hsize => Bool.false_ne_true hsize.1
  · exact if_neg fun hsize => Bool.false_ne_true hsize.1
  · exact if_neg fun hsize => Bool.false_ne_true hsize.1
  · exact if_neg fun hsize => Bool.false_ne_true hsize.2

/-- A layer of a built-in kind evicts and takes a capacity, or it has no attribute for one and stays as it is. -/
lemma resize_builtIn {layer : Layer E} (hbuiltIn : ∀ added, layer.kind ≠ .added added) :
    ((layer.kind = .lru ∨ layer.kind = .fifo) ∧
      ∃ put : Capacity → Layer E, ∀ n, layer.resize n = (Capacity.ofInt n).map put) ∨
    ((layer.kind ≠ .lru ∧ layer.kind ≠ .fifo) ∧ ∀ n, layer.resize n = .ok layer) := by
  obtain ⟨kind, own⟩ := layer
  cases kind with
  | lru => exact .inl ⟨.inl rfl, _, fun n => resize_lru own.order own.capacity⟩
  | fifo => exact .inl ⟨.inr rfl, _, fun n => resize_fifo own.queue own.capacity⟩
  | added added => exact absurd rfl (hbuiltIn added)
  | scheduled => exact .inr ⟨by simp, fun n => resize_of_kind (by simp)⟩
  | serialized => exact .inr ⟨by simp, fun n => resize_of_kind (by simp)⟩
  | logging => exact .inr ⟨by simp, fun n => resize_of_kind (by simp)⟩
  | synchronized => exact .inr ⟨by simp, fun n => resize_of_kind (by simp)⟩
  | blocking => exact .inr ⟨by simp, fun n => resize_of_kind (by simp)⟩

end Layer

end LayeredCache
