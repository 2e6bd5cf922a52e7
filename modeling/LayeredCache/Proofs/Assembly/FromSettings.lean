import LayeredCache.Assembly.Settings
import LayeredCache.Proofs.Assembly.Buildable

/-!
# Specifications from settings

The short names of settings stand for built-in layers only, so the specification of the cache that is served
does not refer to any others.
-/

namespace LayeredCache

variable {E : Extension}

/-- A short name stands for the perpetual storage or for a built-in kind of decorator. -/
lemma LayerType.ofAlias?_eq_some {shortName : String} {t : LayerType E} (h : ofAlias? shortName = some t) :
    t = storage .perpetual ∨ ∃ kind, (∀ added, kind ≠ .added added) ∧ t = decorator kind := by
  unfold ofAlias? at h
  split at h
  · exact .inl (Option.some.inj h).symm
  all_goals first
    | exact .inr ⟨_, by simp, (Option.some.inj h).symm⟩
    | cases h

namespace Settings

variable {settings : Settings} {spec : Spec E}

lemma eq_of_resolveIf {shortName? : Option String} {t? : Option (LayerType E)} (h : resolveIf shortName? = .ok t?) :
    t? = shortName?.bind LayerType.ofAlias? := by
  cases shortName? with
  | none => exact (Except.ok.inj h).symm
  | some shortName =>
    rw [resolveIf, resolve] at h
    cases halias : LayerType.ofAlias? (E := E) shortName with
    | none =>
      rw [halias] at h
      cases h
    | some t =>
      rw [halias] at h
      exact (Except.ok.inj h).symm.trans halias.symm

/-- The specification that settings give, if they give one. -/
lemma eq_of_spec (h : settings.spec = .ok spec) : spec =
    { id := settings.cacheId
      implementation := settings.implementation.bind LayerType.ofAlias?
      decorators := (settings.eviction.bind LayerType.ofAlias?).toList
      size := settings.size
      clearInterval := settings.flushInterval.map (· * nanosPerMilli)
      readWrite := settings.readWrite
      blocking := settings.blocking
      blockingTimeout := settings.blockingTimeout.map (· * nanosPerMilli)
      properties := settings.properties } := by
  unfold Settings.spec at h
  split at h
  · cases h
  · split at h
    · cases h
    · rename_i himplementation _ _ heviction
      rw [← eq_of_resolveIf himplementation, ← eq_of_resolveIf heviction]
      exact (Except.ok.inj h).symm

/-- Settings do not reach the layers that an application added. -/
lemma builtIn_of_spec (h : settings.spec = .ok spec) : spec.BuiltIn := by
  obtain rfl := eq_of_spec h
  have halias {shortName? : Option String} {t : LayerType E}
      (ht : shortName?.bind LayerType.ofAlias? = some t) :
      t = .storage .perpetual ∨ ∃ kind, (∀ added, kind ≠ .added added) ∧ t = .decorator kind := by
    obtain ⟨shortName, -, ht⟩ := Option.bind_eq_some_iff.1 ht
    exact LayerType.ofAlias?_eq_some ht
  constructor
  · intro added hstorage
    unfold Spec.storage at hstorage
    cases himplementation : settings.implementation.bind (LayerType.ofAlias? (E := E)) with
    | none =>
      rw [himplementation] at hstorage
      cases hstorage
    | some t =>
      rw [himplementation] at hstorage
      rcases halias himplementation with rfl | ⟨kind, -, rfl⟩ <;> cases hstorage
  · intro added hadded
    obtain ⟨t, ht, hkind⟩ := List.mem_filterMap.1 hadded
    unfold Spec.effectiveDecorators at ht
    split at ht
    · obtain rfl := List.mem_singleton.1 ht
      cases hkind
    · rcases halias (Option.mem_toList.1 ht) with rfl | ⟨kind, hbuiltIn, rfl⟩
      · cases hkind
      · exact hbuiltIn added (Option.some.inj hkind)

end Settings

end LayeredCache
