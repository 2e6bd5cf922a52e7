import LayeredCache.Proofs.Assembly.Validation

/-!
# Why a build fails

A build of built-in layers fails at a reference that stands for no layer in its place, at a storage without an id,
or at a number: the text of a property that is none, a capacity that is not positive, an interval that is negative.
The first two name the cache (`Spec.BuiltIn.build_error`). The faults of numbers do not: they name the property, its
kind, the text and what is wrong with it, but not the cache (`Spec.build_error_names_cache`).
-/

namespace LayeredCache

variable {E : Extension}

/-- The id of the cache, if the error names one. -/
def CacheError.cacheId? : CacheError → Option String
  | .invalidStorage id _ => some id
  | .invalidDecorator id _ => some id
  | .standardOnly id _ => some id
  | .unsupportedProperty id _ _ => some id
  | .startFailed id _ _ => some id
  | .instantiationFailed id _ _ => some id
  | .serialization id _ => some id
  | .lockTimeout id _ _ => some id
  | .invalidProperty .. => none
  | .notFound _ => none
  | .invalidRequest _ => none
  | .internal _ => none

lemma Capacity.ofInt_eq_error {n : Int} {e : CacheError} (h : ofInt n = .error e) : n ≤ 0 ∧ e = .invalidCapacity n := by
  unfold ofInt at h
  split at h
  · cases h
  · exact ⟨by omega, (Except.error.inj h).symm⟩

lemma Scheduled.intervalOf_eq_error {n : Int} {e : CacheError} (h : intervalOf (.long n) = .error e) :
    n < 0 ∧ e = .invalidProperty "clearInterval" PropertyKind.long.name (toString n) "interval cannot be negative" := by
  simp only [intervalOf, PropertyValue.integer?] at h
  split at h
  · exact ⟨by assumption, (Except.error.inj h).symm⟩
  · cases h

namespace Spec

variable {spec : Spec E} {now : Nat} {e : CacheError}

/-- The property is set to an integer of `bits` bits. -/
def Sets (spec : Spec E) (name : String) (bits : Nat) (n : Int) : Prop :=
  ∃ raw, spec.properties.get? name = some raw ∧ Decimal.readSigned bits raw.toList = .ok n

/-- What is wrong with a number of a specification. -/
inductive NumberFault (spec : Spec E) : CacheError → Prop
  | size {raw fault} : spec.properties.get? "size" = some raw → Decimal.readSigned 32 raw.toList = .error fault →
    NumberFault spec (.invalidProperty "size" PropertyKind.int.name raw fault.message)
  | clearInterval {raw fault} : spec.properties.get? "clearInterval" = some raw →
    Decimal.readSigned 64 raw.toList = .error fault →
    NumberFault spec (.invalidProperty "clearInterval" PropertyKind.long.name raw fault.message)
  | notPositive {n} : spec.Sets "size" 32 n ∨ spec.size = some n → n ≤ 0 → NumberFault spec (.invalidCapacity n)
  | negative {n} : spec.Sets "clearInterval" 64 n → n < 0 →
    NumberFault spec
      (.invalidProperty "clearInterval" PropertyKind.long.name (toString n) "interval cannot be negative")

/-! ## Numbers that cannot be taken -/

/-- A property of an integer kind fails as a text or as a number. -/
lemma reading_eq_error {β : Type} {name : String} {kind : PropertyKind} {bits : Nat} {make : Int → PropertyValue}
    {read : PropertyValue → Except CacheError β} {standard : β}
    (hcoerce : ∀ raw, kind.coerce spec.id name raw = readInteger name kind bits make raw)
    (h : spec.reading name kind read standard = .error e) :
    (∃ raw fault, spec.properties.get? name = some raw ∧ Decimal.readSigned bits raw.toList = .error fault ∧
      e = .invalidProperty name kind.name raw fault.message) ∨
    ∃ n, spec.Sets name bits n ∧ read (make n) = .error e := by
  unfold reading at h
  split at h
  · cases h
  · rename_i raw hraw
    rw [hcoerce, readInteger] at h
    cases hread : Decimal.readSigned bits raw.toList with
    | error fault =>
      rw [hread] at h
      exact .inl ⟨raw, fault, hraw, hread, (Except.error.inj h).symm⟩
    | ok n =>
      rw [hread] at h
      exact .inr ⟨n, ⟨raw, hraw, hread⟩, h⟩

lemma numberFault_of_propertyCapacity (h : spec.propertyCapacity = .error e) : spec.NumberFault e := by
  rcases reading_eq_error (fun _ => rfl) h with ⟨raw, fault, hraw, hread, rfl⟩ | ⟨n, hsets, hfails⟩
  · exact .size hraw hread
  · obtain ⟨hn, rfl⟩ := Capacity.ofInt_eq_error hfails
    exact .notPositive (.inl hsets) hn

lemma numberFault_of_propertyInterval (h : spec.propertyInterval = .error e) : spec.NumberFault e := by
  rcases reading_eq_error (fun _ => rfl) h with ⟨raw, fault, hraw, hread, rfl⟩ | ⟨n, hsets, hfails⟩
  · exact .clearInterval hraw hread
  · obtain ⟨hn, rfl⟩ := Scheduled.intervalOf_eq_error hfails
    exact .negative hsets hn

/-- A new layer of a built-in kind fails only at a number. -/
lemma numberFault_of_fresh {kind : DecoratorKind E} (hbuiltIn : ∀ added, kind ≠ .added added)
    (hblocking : kind ≠ .blocking) (h : spec.fresh now kind = .error e) : spec.NumberFault e := by
  cases kind with
  | lru => exact numberFault_of_propertyCapacity (map_eq_error.1 (fresh_lru ▸ h))
  | fifo => exact numberFault_of_propertyCapacity (map_eq_error.1 (fresh_fifo ▸ h))
  | scheduled => exact numberFault_of_propertyInterval (map_eq_error.1 (fresh_scheduled ▸ h))
  | serialized => cases h.symm.trans fresh_serialized
  | logging => cases h.symm.trans fresh_logging
  | synchronized => cases h.symm.trans fresh_synchronized
  | blocking => exact absurd rfl hblocking
  | added added => exact absurd rfl (hbuiltIn added)

/-- A layer of a built-in kind refuses only a capacity that is not positive. -/
lemma eq_invalidCapacity_of_resize {n : Int} {layer : Layer E} (hbuiltIn : ∀ added, layer.kind ≠ .added added)
    (h : layer.resize n = .error e) : n ≤ 0 ∧ e = .invalidCapacity n := by
  rcases Layer.resize_builtIn hbuiltIn with ⟨-, put, hresize⟩ | ⟨-, hresize⟩
  · rw [hresize, map_eq_error] at h
    exact Capacity.ofInt_eq_error h
  · rw [hresize] at h
    cases h

/-! ## References and storages that name the cache -/

lemma cacheId?_of_storageKind {t : LayerType E} (h : spec.storageKind t = .error e) : e.cacheId? = some spec.id := by
  unfold storageKind at h
  split at h
  · cases h
  · exact Except.error.inj h ▸ rfl

lemma cacheId?_of_decoratorKind {t : LayerType E} (h : spec.decoratorKind t = .error e) :
    e.cacheId? = some spec.id := by
  unfold decoratorKind at h
  split at h
  · exact Except.error.inj h ▸ rfl
  · split at h
    · cases h
    · exact Except.error.inj h ▸ rfl

lemma FirstFault.cacheId? {before : List (LayerType E)} (h : spec.FirstFault before e) :
    e.cacheId? = some spec.id := by
  cases h with
  | storage hkind => exact cacheId?_of_storageKind hkind
  | decorator _ _ _ _ ht => exact cacheId?_of_decoratorKind ht

/-- The perpetual storage is refused only without an id, and has no properties. -/
lemma BuiltIn.cacheId?_of_buildStorage (h : spec.BuiltIn) {kind : StorageKind E}
    (hkind : spec.storageKind spec.storage = .ok kind) (hstorage : spec.buildStorage spec.storage = .error e) :
    e.cacheId? = some spec.id := by
  rw [buildStorage, hkind] at hstorage
  cases kind with
  | perpetual =>
    simp only [StorageKind.model, Attributes.bind, Attributes.none] at hstorage
    split at hstorage
    · exact Except.error.inj hstorage ▸ rfl
    · cases hstorage
  | added added => exact absurd (storageKind_eq_ok.1 hkind) (h.storage added)

/-! ## The fault of a build -/

lemma BuiltIn.ne_added (h : spec.BuiltIn) {t : LayerType E} {kind : DecoratorKind E} (ht : t ∈ spec.effectiveDecorators)
    (hkind : spec.decoratorKind t = .ok kind) : ∀ added, kind ≠ .added added :=
  fun added heq => h.decorators added (heq ▸ mem_kinds ht (decoratorKind_eq_ok.1 hkind).2)

/-- A build of built-in layers that fails names the cache or is at fault with a number. -/
lemma BuiltIn.build_error (h : spec.BuiltIn) (hbuild : spec.build now = .error e) :
    e.cacheId? = some spec.id ∨ spec.NumberFault e := by
  rcases build_error_cases hbuild with ⟨before, hfault⟩ | hfails | ⟨n, layer, hsize, ⟨t, ht, hkind⟩, hresize⟩
  · exact .inl hfault.cacheId?
  · -- the reference stands for a layer, but that cannot be made
    cases hfails with
    | storage hkind hstorage => exact .inl (h.cacheId?_of_buildStorage hkind hstorage)
    | decorator _ hsplit _ hkind hfresh =>
      have hadded := h.ne_added (hsplit ▸ by simp) hkind
      exact .inr (numberFault_of_fresh hadded (ne_blocking_of_decoratorKind hkind) hfresh)
  · -- the hint is refused by the outermost custom layer
    obtain ⟨hn, rfl⟩ := eq_invalidCapacity_of_resize (h.ne_added ht hkind) hresize
    exact .inr (.notPositive (.inr hsize) hn)

lemma NumberFault.cacheId? (h : spec.NumberFault e) : e.cacheId? = none := by
  cases h <;> rfl

/-- If a build of built-in layers fails, its error names the cache, or it is the fault of a number, and then it names
none. -/
theorem build_error_names_cache (h : spec.BuiltIn) (hbuild : spec.build now = .error e) :
    (e.cacheId? = some spec.id ∧ ¬spec.NumberFault e) ∨ (e.cacheId? = none ∧ spec.NumberFault e) := by
  rcases h.build_error hbuild with hid | hfault
  · refine .inl ⟨hid, fun hfault => ?_⟩
    rw [hfault.cacheId?] at hid
    cases hid
  · exact .inr ⟨hfault.cacheId?, hfault⟩

/-- A cache whose capacity is no number. -/
def unread (id : String) : Spec .nothing :=
  { new id with properties := .ofList [("size", "abc")] }

/-- The two kinds of faults: blocking as a custom decorator, and a capacity that is no number. -/
theorem build_error_names_cache_unread :
    (∃ e, ({ unread "users" with decorators := [.decorator .blocking] }).build 0 = .error e ∧
      e.cacheId? = some "users") ∧
    ∃ e, (unread "users").build 0 = .error e ∧ (unread "users").NumberFault e := by
  have hbuiltIn (spec : Spec .nothing) : spec.BuiltIn := ⟨nofun, nofun⟩
  have hnames (spec : Spec .nothing) (e : CacheError) (hbuild : spec.build 0 = .error e) :=
    build_error_names_cache (hbuiltIn spec) hbuild
  constructor
  · refine ⟨_, rfl, ?_⟩
    rcases hnames { unread "users" with decorators := [.decorator .blocking] } _ rfl with ⟨hid, -⟩ | ⟨hnone, -⟩
    · exact hid
    · cases hnone
  · refine ⟨_, rfl, ?_⟩
    rcases hnames (unread "users") _ rfl with ⟨hid, -⟩ | ⟨-, hfault⟩
    · cases hid
    · exact hfault

/-- The error for such a capacity does not name the cache: it is the same for two caches. -/
theorem unread_names_no_cache :
    ∃ e : CacheError, (unread "users").BuiltIn ∧ (unread "users").build 0 = .error e ∧
      (unread "orders").build 0 = .error e ∧ e.cacheId? = none ∧
      e.message = "Invalid value 'abc' for property 'size' of type i32: invalid digit found in string" :=
  ⟨_, ⟨nofun, nofun⟩, rfl, rfl, rfl, rfl⟩

end Spec

end LayeredCache
