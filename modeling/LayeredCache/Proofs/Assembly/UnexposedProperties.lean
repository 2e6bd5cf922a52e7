import LayeredCache.Proofs.Assembly.Chains
import LayeredCache.Proofs.Assembly.TypedBinding

/-!
# Properties that no layer exposes

Properties are offered to the storage and to the custom decorators. Those that none of them declares a kind for make no
difference: a build without them is the same build, whether it fails or not (`Spec.unexposed_properties`). The layers
of the standard stages take nothing from properties.
-/

namespace LayeredCache

variable {E : Extension}

namespace Properties

/-- The properties of certain names. -/
def restrict (p : Properties) (keep : String → Prop) [DecidablePred keep] : Properties :=
  ⟨p.entries.filter fun entry => keep entry.1, p.ascending.filter _⟩

end Properties

/-! ## Names that a layer exposes -/

namespace Attributes

variable {τ : Type} {attributes : Attributes τ} {made state : τ} {keep : String → Prop} [DecidablePred keep]

/-- A layer is made and assigned values of the kinds that it declares. -/
inductive Reaches (attributes : Attributes τ) (made : τ) : τ → Prop
  | made : Reaches attributes made made
  | assign {state next : τ} {name : String} {value : PropertyValue} : Reaches attributes made state →
    attributes.kind? state name = some value.kind → attributes.assign name value state = (.ok (), next) →
    Reaches attributes made next

/-- A layer exposes a name if it declares a kind for it, as it is made or after some assignments. -/
def Exposes (attributes : Attributes τ) (made : τ) (name : String) : Prop :=
  attributes.configurable made = true ∧
    ∃ state, attributes.Reaches made state ∧ (attributes.kind? state name).isSome

lemma exposes_single {name other : String} {kind : PropertyKind} {assign : PropertyValue → τ → Except CacheError τ} :
    (single name kind assign).Exposes made other ↔ other = name := by
  have hkind (state : τ) : ((single name kind assign).kind? state other).isSome ↔ other = name := by simp [single]
  simp only [Exposes, hkind]
  constructor
  · rintro ⟨-, state, -, hname⟩
    exact hname
  · intro hname
    exact ⟨rfl, made, .made, hname⟩

lemma not_exposes_none (name : String) : ¬(none : Attributes τ).Exposes made name :=
  fun hexposes => Bool.false_ne_true hexposes.1

/-- By induction on the properties: the state is one that the layer reaches, so it declares no kind for a name that is
left out. -/
lemma bindAll_filter (hconfigurable : attributes.configurable made = true)
    (hkeep : ∀ name, attributes.Exposes made name → keep name) (id : String) (entries : List (String × String))
    (hreaches : attributes.Reaches made state) :
    attributes.bindAll id (entries.filter fun entry => keep entry.1) state = attributes.bindAll id entries state := by
  induction entries generalizing state with
  | nil => rfl
  | cons entry entries ih =>
    obtain ⟨name, raw⟩ := entry
    by_cases hname : keep name
    · rw [List.filter_cons_of_pos (by simpa using hname), bindAll, bindAll]
      cases hkind : attributes.kind? state name with
      | none => exact ih hreaches
      | some kind =>
        simp only
        cases hcoerce : kind.coerce id name raw with
        | error e => rfl
        | ok value =>
          obtain rfl := PropertyKind.kind_of_coerce hcoerce
          simp only
          rcases hassign : attributes.assign name value state with ⟨_ | _, next⟩
          · rfl
          · exact ih (.assign hreaches hkind hassign)
    · -- a kind here would make the name one that the layer exposes
      have hkind : attributes.kind? state name = Option.none := by
        refine Option.not_isSome_iff_eq_none.1 fun hsome => hname (hkeep name ?_)
        exact ⟨hconfigurable, state, hreaches, hsome⟩
      rw [List.filter_cons_of_neg (by simpa using hname), bindAll, hkind]
      exact ih hreaches

lemma bind_restrict (hkeep : ∀ name, attributes.Exposes made name → keep name) (id typeName : String)
    (properties : Properties) :
    attributes.bind id typeName (properties.restrict keep) made = attributes.bind id typeName properties made := by
  rw [bind_eq_started, bind_eq_started, offered, offered]
  cases hconfigurable : attributes.configurable made with
  | false => rfl
  | true =>
    simp only [if_true]
    rw [Properties.restrict, bindAll_filter hconfigurable hkeep id properties.entries .made]

end Attributes

/-! ## Names that a specification exposes -/

namespace Spec

variable {spec : Spec E} {now : Nat} {keep : String → Prop} [DecidablePred keep]

/-- The storage exposes the name, or around the perpetual storage one of the custom decorators does. -/
def Exposes (spec : Spec E) (now : Nat) (name : String) : Prop :=
  (∃ kind made, spec.storage.storage? = some kind ∧ kind.model.make spec.id = .ok made ∧
    kind.model.attributes.Exposes made name) ∨
  spec.storage.isPerpetual = true ∧ ∃ kind ∈ spec.kinds, ∃ made, kind.model.make now = .ok made ∧
    kind.model.attributes.Exposes made name

/-- The specification with properties of certain names only. -/
def restrict (spec : Spec E) (keep : String → Prop) [DecidablePred keep] : Spec E :=
  { spec with properties := spec.properties.restrict keep }

lemma buildStorage_restrict (hkeep : ∀ name, spec.Exposes now name → keep name) :
    (spec.restrict keep).buildStorage spec.storage = spec.buildStorage spec.storage := by
  have hkinds : (spec.restrict keep).storageKind spec.storage = spec.storageKind spec.storage := rfl
  rw [buildStorage, buildStorage, hkinds]
  cases hkind : spec.storageKind spec.storage with
  | error e => rfl
  | ok kind =>
    have hstorage := storageKind_eq_ok.1 hkind
    simp only [restrict]
    cases hmake : kind.model.make spec.id with
    | error source => rfl
    | ok made =>
      simp only
      rw [Attributes.bind_restrict fun name hname => hkeep name (.inl ⟨kind, made, hstorage, hmake, hname⟩)]

lemma addDecorator_restrict (hkeep : ∀ name, spec.Exposes now name → keep name)
    (hperpetual : spec.storage.isPerpetual = true) {t : LayerType E} (ht : t ∈ spec.effectiveDecorators)
    (stack : Stack E) : (spec.restrict keep).addDecorator now stack t = spec.addDecorator now stack t := by
  have hkinds : (spec.restrict keep).decoratorKind t = spec.decoratorKind t := rfl
  rw [addDecorator, addDecorator, hkinds]
  cases hkind : spec.decoratorKind t with
  | error e => rfl
  | ok kind =>
    have hmem := mem_kinds ht (decoratorKind_eq_ok.1 hkind).2
    simp only [restrict]
    cases hmake : kind.model.make now with
    | error source => rfl
    | ok made =>
      simp only
      rw [Attributes.bind_restrict fun name hname => hkeep name (.inr ⟨hperpetual, kind, hmem, made, hmake, hname⟩)]

lemma addDecorators_restrict (hkeep : ∀ name, spec.Exposes now name → keep name)
    (hperpetual : spec.storage.isPerpetual = true) {ts : List (LayerType E)}
    (hts : ∀ t ∈ ts, t ∈ spec.effectiveDecorators) (stack : Stack E) :
    (spec.restrict keep).addDecorators now ts stack = spec.addDecorators now ts stack := by
  induction ts generalizing stack with
  | nil => rfl
  | cons t ts ih =>
    obtain ⟨ht, hrest⟩ := List.forall_mem_cons.1 hts
    rw [addDecorators, addDecorators, addDecorator_restrict hkeep hperpetual ht]
    cases spec.addDecorator now stack t with
    | error e => rfl
    | ok next => exact ih hrest next

/-- The properties that are left out are offered to no layer that exposes them. -/
lemma build_restrict (hkeep : ∀ name, spec.Exposes now name → keep name) :
    (spec.restrict keep).build now = spec.build now := by
  have hstorage : (spec.restrict keep).storage = spec.storage := rfl
  have hdecorators : (spec.restrict keep).effectiveDecorators = spec.effectiveDecorators := rfl
  rw [build, build, hstorage, hdecorators, buildStorage_restrict hkeep]
  cases spec.buildStorage spec.storage with
  | error e => rfl
  | ok bottom =>
    cases hperpetual : spec.storage.isPerpetual with
    | false => rfl
    | true =>
      simp only [if_true]
      rw [addDecorators_restrict hkeep hperpetual fun _ ht => ht]
      cases spec.addDecorators now spec.effectiveDecorators bottom with
      | error e => rfl
      | ok custom => rfl

/-! ## The layers of the standard stages -/

lemma interval_of_mem_standardLayers {own : Scheduled} (h : ⟨.scheduled, own⟩ ∈ spec.standardLayers now) :
    spec.clearInterval = some own.interval := by
  have hother {layer : Layer E} (hmem : ⟨.scheduled, own⟩ ∈ [layer]) : layer.kind = .scheduled := by
    rw [← List.mem_singleton.1 hmem]
  simp only [standardLayers, syncedLayers, List.append_assoc, List.mem_append] at h
  rcases h with hscheduled | hserialized | hlogging | hsynchronized | hblocking
  · rw [scheduledLayers] at hscheduled
    split at hscheduled
    · rename_i ms hinterval
      cases List.mem_singleton.1 hscheduled
      exact hinterval
    · cases hscheduled
  · split at hserialized
    · cases hother hserialized
    · cases hserialized
  · cases hother hlogging
  · cases hother hsynchronized
  · split at hblocking
    · cases hother hblocking
    · cases hblocking

lemma timeout_of_mem_standardLayers {own : Blocking} (h : ⟨.blocking, own⟩ ∈ spec.standardLayers now) :
    own.timeout = spec.blockingTimeout := by
  rcases of_mem_standardLayers h with ⟨hnew, -, -⟩ | hblocking
  · cases hnew
  · cases hblocking
    rfl

/-- The properties of names that neither the storage nor, around the perpetual storage, a custom decorator exposes make
no difference: without them the build has the same outcome, that is the same error or the same layers in the same
states. Whatever the properties, the layers of the standard stages have the interval and the timeout of the options. -/
theorem unexposed_properties (spec : Spec E) (now : Nat) [DecidablePred (spec.Exposes now)] :
    (spec.restrict (spec.Exposes now)).build now = spec.build now ∧
    ∀ properties stack, spec.storage.isPerpetual = true → { spec with properties }.build now = .ok stack →
      ∃ custom, custom.map Layer.kind = spec.kinds ∧
        stack = .ofLayers (.empty spec.id) (custom ++ spec.standardLayers now).reverse ∧
        (∀ own, ⟨.scheduled, own⟩ ∈ spec.standardLayers now → spec.clearInterval = some own.interval) ∧
        ∀ own, ⟨.blocking, own⟩ ∈ spec.standardLayers now → own.timeout = spec.blockingTimeout := by
  refine ⟨build_restrict fun _ hname => hname, fun properties stack hperpetual hbuild => ?_⟩
  have hperpetual : ({ spec with properties } : Spec E).storage.isPerpetual = true := hperpetual
  obtain ⟨-, -, layers, custom, hlayers, hsized, rfl⟩ := (build_eq_ok hperpetual).1 hbuild
  exact ⟨custom, hsized.kinds.trans hlayers.kinds_eq, Stack.wrapAll_base _ _,
    fun own => interval_of_mem_standardLayers, fun own => timeout_of_mem_standardLayers⟩

/-- A cache that evicts, is cleared and blocks, with properties for all of that and one more. -/
def withStrays : Spec .nothing :=
  { Spec.new "users" with
    clearInterval := some (5 * nanosPerMilli)
    blocking := true
    blockingTimeout := some (7 * nanosPerMilli)
    properties := .ofList [("clearInterval", "soon"), ("color", "red"), ("size", "3"), ("timeout", "0")] }

/-- Only the layer that evicts is custom. -/
lemma exposes_withStrays {name : String} : withStrays.Exposes 0 name ↔ name = "size" := by
  have hstorage : withStrays.storage.storage? = some .perpetual := rfl
  have hkinds : withStrays.kinds = [.lru] := rfl
  constructor
  · rintro (⟨kind, made, hkind, -, hexposes⟩ | ⟨-, kind, hkind, made, -, hexposes⟩)
    · obtain rfl := Option.some.inj (hstorage.symm.trans hkind)
      exact absurd hexposes (Attributes.not_exposes_none name)
    · rw [hkinds] at hkind
      obtain rfl := List.mem_singleton.1 hkind
      exact Attributes.exposes_single.1 hexposes
  · rintro rfl
    refine .inr ⟨rfl, .lru, ?_, .empty, rfl, Attributes.exposes_single.2 rfl⟩
    rw [hkinds]
    exact List.mem_singleton_self _

/-- The capacity is the only property that counts, so the build does not fail at the interval that is no number. -/
theorem unexposed_properties_withStrays :
    ({ withStrays with properties := .ofList [("size", "3")] }).build 0 = withStrays.build 0 ∧
    ∃ custom, custom.map Layer.kind = [.lru] ∧ withStrays.build 0 = .ok (.ofLayers (.empty "users")
      (custom ++ [⟨.scheduled, Scheduled.mk (5 * nanosPerMilli) 0⟩, ⟨.logging, Logging.empty⟩,
        ⟨.synchronized, Synchronized.free⟩, ⟨.blocking, Blocking.empty (some (7 * nanosPerMilli))⟩]).reverse) := by
  let hdecidable : DecidablePred (withStrays.Exposes 0) := fun name => decidable_of_iff _ exposes_withStrays.symm
  obtain ⟨hrestrict, hlayers⟩ := unexposed_properties withStrays 0
  obtain ⟨stack, hbuild⟩ : ∃ stack, withStrays.build 0 = .ok stack := ⟨_, rfl⟩
  obtain ⟨custom, hkinds, hstack, -⟩ := hlayers withStrays.properties stack rfl hbuild
  exact ⟨hrestrict, custom, hkinds, hbuild.trans (congrArg _ hstack)⟩

end Spec

end LayeredCache
