import LayeredCache.Proofs.Assembly.CapacityHint
import LayeredCache.Proofs.Assembly.FromSettings
import LayeredCache.Proofs.Assembly.Validation
import LayeredCache.Proofs.Decimal.Integer

/-!
# Texts and options

A number can come to a layer in two ways: as the text of a property, which is read and assigned to an attribute,
or as an option, which a standard stage takes over. Both ways give the same capacity and the same interval, for
every number. They give the same timeout for every positive number (`Spec.routes_agree`). A timeout of zero is
none as an attribute, and none at all to wait as an option (`Spec.routes_differ_at_zero`).
-/

namespace LayeredCache

variable {E : Extension}

/-! ## The text of a number -/

lemma readInteger_toString {property : String} {kind : PropertyKind} {bits : Nat} {make : Int → PropertyValue} {n : Int}
    (hlow : -2 ^ (bits - 1) ≤ n) (hhigh : n < 2 ^ (bits - 1)) :
    readInteger property kind bits make (toString n) = .ok (make n) := by
  rw [readInteger, Decimal.readSigned_toString hlow hhigh]

lemma coerce_int_toString (id property : String) {n : Int} (hlow : -2 ^ 31 ≤ n) (hhigh : n < 2 ^ 31) :
    PropertyKind.int.coerce id property (toString n) = .ok (.int n) :=
  readInteger_toString hlow hhigh

lemma coerce_long_toString (id property : String) {n : Nat} (h : n < 2 ^ 63) :
    PropertyKind.long.coerce id property (toString (n : Int)) = .ok (.long n) :=
  readInteger_toString (by omega) (by exact_mod_cast h)

namespace Properties

/-- A single property. -/
def single (name value : String) : Properties :=
  .ofList [(name, value)]

@[simp]
lemma get?_single (name value : String) : (single name value).get? name = some value :=
  List.lookup_cons_self

end Properties

namespace Attributes

variable {τ : Type}

/-- The attribute takes a number, as a value and as the text of a property, and puts it into the state. -/
def Takes (attributes : Attributes τ) (name : String) (n : Nat) (put : τ → τ) : Prop :=
  ∀ state, attributes.assign name (.long n) state = (.ok (), put state) ∧
    ∀ id typeName, attributes.bound id typeName (.single name (toString (n : Int))) state = .ok (put state)

lemma takes_single {name : String} {n : Nat} {assign : PropertyValue → τ → Except CacheError τ} {put : τ → τ}
    (hn : n < 2 ^ 63) (hassign : ∀ state, assign (.long n) state = .ok (put state)) :
    (single name .long assign).Takes name n put := by
  refine fun state => ⟨?_, fun id typeName => ?_⟩
  · simp only [single, hassign, if_true]
  · rw [bound_single, Properties.get?_single]
    simp only [assigned, coerce_long_toString id name hn, hassign]

end Attributes

/-- An interval that is not negative is taken over. -/
lemma Scheduled.takes_interval {n : Nat} (hn : n < 2 ^ 63) :
    attributes.Takes "clearInterval" n fun s => { s with interval := n * nanosPerMilli } :=
  Attributes.takes_single hn fun _ => rfl

namespace Blocking

/-- So is a timeout that is positive. -/
lemma takes_timeout {n : Nat} (hn : n < 2 ^ 63) (hpos : 0 < n) :
    attributes.Takes "timeout" n fun b => { b with timeout := some (n * nanosPerMilli) } := by
  refine Attributes.takes_single hn fun b => ?_
  simp only [timeoutOf, PropertyValue.integer?, Int.natCast_pos, hpos, if_true, Int.toNat_natCast]
  rfl

/-- A timeout of zero is none. -/
lemma takes_no_timeout : attributes.Takes "timeout" 0 fun b => { b with timeout := none } :=
  Attributes.takes_single (by decide) fun _ => rfl

variable {σ : Type} {inner : Cache σ} {call : Call} {key : String} {holder : Nat} {held : List (String × Nat)} {s : σ}

/-- A key that another thread holds is not admitted, whatever the timeout. -/
lemma admit?_of_holder (hheld : held.lookup key = some holder) (hother : holder ≠ call.thread)
    (timeout : Option Nat) : (⟨held, timeout⟩ : Blocking).admit? key call.thread = none := by
  simp only [admit?, holder?, hheld, if_neg hother]

/-- Without a timeout, a lookup of such a key waits until it is admitted. -/
lemma get_of_no_timeout (hheld : held.lookup key = some holder) (hother : holder ≠ call.thread) :
    ∃ ready resume, get inner call key (⟨held, none⟩, s) = .waiting none ready (⟨held, none⟩, s) resume := by
  simp only [get, admit?_of_holder hheld hother, reduceCtorEq, if_false, await]
  exact ⟨_, _, rfl⟩

/-- With a timeout of zero it fails at once. -/
lemma get_of_zero_timeout (hheld : held.lookup key = some holder) (hother : holder ≠ call.thread) :
    get inner call key (⟨held, some 0⟩, s) = .done (.error (.lockTimeout (inner.id s) key 0)) (⟨held, some 0⟩, s) := by
  simp only [get, admit?_of_holder hheld hother, if_true, timedOut, timeoutMillis, Option.getD_some, Nat.zero_div]

end Blocking

/-! ## The standard cache -/

namespace Spec

variable {spec : Spec E} {now : Nat}

lemma addDecorator_decorator {kind : DecoratorKind E} (hkind : kind ≠ .blocking) (stack : Stack E) :
    spec.addDecorator now stack (.decorator kind) =
      (spec.fresh now kind).map fun layer => stack.wrap layer.kind layer.own := by
  have hdecorator : spec.decoratorKind (.decorator kind) = .ok kind :=
    decoratorKind_eq_ok.2 ⟨by simpa [LayerType.isBlocking, LayerType.decorator] using hkind, rfl⟩
  cases hfresh : spec.fresh now kind with
  | error e => exact addDecorator_eq_error.2 (.inr ⟨kind, hdecorator, hfresh⟩)
  | ok layer => exact addDecorator_eq_ok.2 ⟨kind, layer, hdecorator, hfresh, rfl⟩

/-- The hint replaces a capacity, if there is one. -/
def hinted (spec : Spec E) (capacity : Capacity) : Except CacheError Capacity :=
  match spec.size with
  | none => .ok capacity
  | some n => Capacity.ofInt n

/-- The capacity of the standard cache. The property is read before the hint is looked at. -/
def standardCapacity (spec : Spec E) : Except CacheError Capacity :=
  match spec.propertyCapacity with
  | .error e => .error e
  | .ok capacity => spec.hinted capacity

/-- The standard cache with a capacity. -/
def standardStack (spec : Spec E) (now : Nat) (capacity : Capacity) : Stack E :=
  .ofLayers (.empty spec.id) ((spec.standardLayers now).reverse ++ [⟨.lru, Lru.mk .empty capacity⟩])

lemma applyEnabled_lru (capacity : Capacity) :
    Stage.applyEnabled spec now Stage.all
        ((Stack.base .perpetual (.empty spec.id)).wrap .lru (Lru.mk .empty capacity)) =
      (spec.hinted capacity).map (spec.standardStack now) := by
  have hstack (capacity : Capacity) :
      ((Stack.base .perpetual (.empty spec.id)).wrap .lru (Lru.mk .empty capacity)).wrapAll (spec.standardLayers now) =
        spec.standardStack now capacity :=
    Stack.wrapAll_ofLayers _ [⟨.lru, Lru.mk .empty capacity⟩] _
  rw [Stage.applyEnabled_all, Stage.apply, hinted]
  cases spec.size with
  | none => exact congrArg Except.ok (hstack capacity)
  | some n =>
    have hsized := Stage.bindSize_wrap n (Stack.base (E := E) .perpetual (.empty spec.id))
      ⟨.lru, Lru.mk .empty capacity⟩
    simp only [hsized, Layer.resize_lru]
    cases Capacity.ofInt n with
    | error e => rfl
    | ok capacity => exact congrArg Except.ok (hstack capacity)

/-- A cache that names neither storage nor decorators evicts by use. -/
lemma build_standard (himplementation : spec.implementation = none) (hdecorators : spec.decorators = [])
    (hid : spec.id ≠ "") (now : Nat) : spec.build now = spec.standardCapacity.map (spec.standardStack now) := by
  have hstorage : spec.storage = .storage .perpetual := by rw [storage, himplementation, Option.getD_none]
  have heffective : spec.effectiveDecorators = [.decorator .lru] := by
    rw [effectiveDecorators, himplementation, hdecorators]
    rfl
  have hperpetual : spec.storage.isPerpetual = true := by rw [hstorage]; rfl
  have hbottom : spec.buildStorage spec.storage = .ok (.base .perpetual (.empty spec.id)) :=
    (buildStorage_eq_ok hperpetual).2 ⟨by rw [hstorage]; rfl, hid, rfl⟩
  have hlru : (DecoratorKind.lru : DecoratorKind E) ≠ .blocking := by simp
  simp only [build, hbottom, hperpetual, if_true, heffective, addDecorators, addDecorator_decorator hlru, fresh_lru]
  rw [standardCapacity]
  cases spec.propertyCapacity with
  | error e => rfl
  | ok capacity => exact applyEnabled_lru capacity

lemma build_of_no_id (himplementation : spec.implementation = none) (hid : spec.id = "") (now : Nat) :
    spec.build now = .error
      (.instantiationFailed "" (StorageKind.perpetual (E := E)).model.name "cache instances require an id") := by
  have hstorage : spec.storage = .storage .perpetual := by rw [storage, himplementation, Option.getD_none]
  rw [build, buildStorage, hstorage, hid]
  rfl

/-- The standard cache with a capacity as an option. -/
def withHint (id : String) (n : Int) : Spec E :=
  { new id with size := some n }

/-- The standard cache with a capacity as the text of a property. -/
def withSizeText (id : String) (n : Int) : Spec E :=
  { new id with properties := .single "size" (toString n) }

lemma build_withHint {id : String} (hid : id ≠ "") (now : Nat) (n : Int) :
    (withHint id n : Spec E).build now = (Capacity.ofInt n).map ((new id).standardStack now) :=
  build_standard rfl rfl hid now

lemma build_withSizeText {id : String} (hid : id ≠ "") (now : Nat) {n : Int} (hlow : -2 ^ 31 ≤ n) (hhigh : n < 2 ^ 31) :
    (withSizeText id n : Spec E).build now = (Capacity.ofInt n).map ((new id).standardStack now) := by
  have hcapacity : (withSizeText id n : Spec E).propertyCapacity = Capacity.ofInt n := by
    simp only [propertyCapacity, reading, withSizeText, Properties.get?_single, coerce_int_toString _ _ hlow hhigh]
    rfl
  have hstandard : (withSizeText id n : Spec E).standardCapacity = Capacity.ofInt n := by
    rw [standardCapacity, hcapacity]
    cases Capacity.ofInt n <;> rfl
  rw [build_standard rfl rfl hid, hstandard]
  rfl

/-! ## The two ways -/

/-- A capacity is the same as a text and as an option: both builds fail alike, or both lead to the same stack with
that capacity. A text and an option make a layer with the same interval. They make a blocking layer with the same
timeout, unless that is zero: as an attribute it is none, and a lookup of a held key waits for the key; as an option
such a lookup fails at once. -/
theorem routes_agree :
    (∀ (id : String) (now : Nat) (n : Int), -2 ^ 31 ≤ n → n < 2 ^ 31 →
      (withHint id n : Spec E).build now = (withSizeText id n).build now ∧
      ((∃ stack, (withHint id n : Spec E).build now = .ok stack) ↔ id ≠ "" ∧ 0 < n) ∧
      ∀ stack, (withHint id n : Spec E).build now = .ok stack →
        ∃ capacity : Capacity, (capacity.count : Int) = n ∧ stack = (new id).standardStack now capacity) ∧
    (∀ n : Nat, n < 2 ^ 63 →
      Scheduled.attributes.Takes "clearInterval" n (fun s => { s with interval := n * nanosPerMilli }) ∧
      ∀ (spec : Spec E) (now : Nat) (stack : Stack E), spec.clearInterval = some (n * nanosPerMilli) →
        Stage.apply spec now stack .scheduled =
          .ok (stack.wrap .scheduled { Scheduled.since now with interval := n * nanosPerMilli })) ∧
    (∀ n : Nat, n < 2 ^ 63 → 0 < n →
      Blocking.attributes.Takes "timeout" n fun b => { b with timeout := some (n * nanosPerMilli) }) ∧
    (∀ (n : Nat) (settings : Settings) (spec : Spec E) (now : Nat) (stack : Stack E), settings.spec = .ok spec →
      settings.blockingTimeout = some n →
      Stage.apply spec now stack .blocking =
        .ok (stack.wrap .blocking { Blocking.empty none with timeout := some (n * nanosPerMilli) })) ∧
    (Blocking.attributes.Takes "timeout" 0 fun b => { b with timeout := none }) ∧
    ∀ {σ : Type} (inner : Cache σ) (call : Call) (key : String) (holder : Nat) (held : List (String × Nat)) (s : σ),
      held.lookup key = some holder → holder ≠ call.thread →
        (∃ ready resume, Blocking.get inner call key (⟨held, none⟩, s) = .waiting none ready (⟨held, none⟩, s) resume) ∧
        Blocking.get inner call key (⟨held, some 0⟩, s) =
          .done (.error (.lockTimeout (inner.id s) key 0)) (⟨held, some 0⟩, s) := by
  refine ⟨fun id now n hlow hhigh => ?_, fun n hn => ⟨Scheduled.takes_interval hn, fun spec now stack hspec => ?_⟩,
    fun n hn hpos => Blocking.takes_timeout hn hpos, fun n settings spec now stack hspec htimeout => ?_,
    Blocking.takes_no_timeout, fun inner call key holder held s hheld hother => ?_⟩
  · rcases eq_or_ne id "" with rfl | hid
    · -- without an id both fail before the capacity is looked at
      have hfails : (withHint "" n : Spec E).build now = _ := build_of_no_id rfl rfl now
      rw [hfails, build_of_no_id rfl rfl now]
      exact ⟨rfl, by simp, by simp⟩
    · rw [build_withHint hid, build_withSizeText hid now hlow hhigh]
      refine ⟨rfl, ?_, fun stack hbuild => ?_⟩
      · simp only [map_eq_ok]
        constructor
        · rintro ⟨stack, capacity, hcapacity, -⟩
          exact ⟨hid, exists_capacity.1 ⟨capacity, hcapacity⟩⟩
        · rintro ⟨-, hpos⟩
          obtain ⟨capacity, hcapacity⟩ := exists_capacity.2 hpos
          exact ⟨_, capacity, hcapacity, rfl⟩
      · obtain ⟨capacity, hcapacity, rfl⟩ := map_eq_ok.1 hbuild
        exact ⟨capacity, Capacity.count_of_ofInt hcapacity, rfl⟩
  · rw [Stage.apply, hspec]
    rfl
  · obtain rfl := Settings.eq_of_spec hspec
    rw [Stage.apply, htimeout]
    rfl
  · exact ⟨Blocking.get_of_no_timeout hheld hother, Blocking.get_of_zero_timeout hheld hother⟩

/-- Settings of a blocking cache whose lookups do not wait. -/
def impatient : Settings :=
  { Settings.standard with
    blocking := true
    blockingTimeout := some 0 }

/-- The two ways agree at the limits. The lookup is one by the thread 1 of a key that the thread 2 holds. -/
theorem routes_agree_atLimits :
    (withHint "users" (2 ^ 31 - 1) : Spec .nothing).build 0 = (withSizeText "users" (2 ^ 31 - 1)).build 0 ∧
    (∃ stack, (withHint "users" (2 ^ 31 - 1) : Spec .nothing).build 0 = .ok stack) ∧
    (withHint "users" (-2 ^ 31) : Spec .nothing).build 0 = (withSizeText "users" (-2 ^ 31)).build 0 ∧
    (¬ ∃ stack, (withHint "users" (-2 ^ 31) : Spec .nothing).build 0 = .ok stack) ∧
    (Scheduled.attributes.Takes "clearInterval" (2 ^ 63 - 1) fun s =>
      { s with interval := (2 ^ 63 - 1) * nanosPerMilli }) ∧
    (∀ stack : Stack .nothing, Stage.apply { new "users" with clearInterval := some 0 } 0 stack .scheduled =
      .ok (stack.wrap .scheduled { Scheduled.since 0 with interval := 0 })) ∧
    (Blocking.attributes.Takes "timeout" (2 ^ 63 - 1) fun b =>
      { b with timeout := some ((2 ^ 63 - 1) * nanosPerMilli) }) ∧
    (∃ spec : Spec .nothing, impatient.spec = .ok spec ∧ spec.blocking = true ∧ ∀ stack : Stack .nothing,
      Stage.apply spec 0 stack .blocking = .ok (stack.wrap .blocking { Blocking.empty none with timeout := some 0 })) ∧
    Blocking.get Perpetual.cache (.at 1 0) "k" (⟨[("k", 2)], some 0⟩, .empty "users") =
      .done (.error (.lockTimeout "users" "k" 0)) (⟨[("k", 2)], some 0⟩, .empty "users") := by
  obtain ⟨hsize, hinterval, htimeout, hstage, -, hlookup⟩ := routes_agree (E := .nothing)
  obtain ⟨hmax, hmaxBuilds, -⟩ := hsize "users" 0 (2 ^ 31 - 1) (by decide) (by decide)
  obtain ⟨hmin, hminBuilds, -⟩ := hsize "users" 0 (-2 ^ 31) (by decide) (by decide)
  obtain ⟨spec, hspec⟩ : ∃ spec : Spec .nothing, impatient.spec = .ok spec := ⟨_, rfl⟩
  refine ⟨hmax, hmaxBuilds.2 (by decide), hmin, fun hbuilds => ?_, (hinterval _ (by decide)).1,
    fun stack => (hinterval 0 (by decide)).2 _ 0 stack rfl, htimeout _ (by decide) (by decide),
    ⟨spec, hspec, ?_, fun stack => hstage 0 impatient spec 0 stack hspec rfl⟩,
    (hlookup Perpetual.cache (.at 1 0) "k" 2 [("k", 2)] (.empty "users") rfl (by decide)).2⟩
  · exact absurd (hminBuilds.1 hbuilds).2 (by decide)
  · rw [Settings.eq_of_spec hspec]
    rfl

/-- At zero they do not: the attribute leaves a blocking layer without a timeout, and the option leaves it no time to
wait. -/
theorem routes_differ_at_zero :
    ∃ (spec : Spec .nothing) (assigned stage : Blocking), impatient.spec = .ok spec ∧
      Blocking.attributes.assign "timeout" (.long 0) (.empty none) = (.ok (), assigned) ∧
      Stage.apply spec 0 (.base .perpetual (.empty "users")) .blocking =
        .ok ((Stack.base .perpetual (.empty "users")).wrap .blocking stage) ∧
      assigned.timeout = none ∧ stage.timeout = some 0 ∧ assigned ≠ stage :=
  ⟨_, .empty none, .empty (some 0), rfl, rfl, rfl, rfl, rfl, by decide⟩

end Spec

end LayeredCache
