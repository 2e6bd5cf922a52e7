import LayeredCache.Proofs.Assembly.Steps
import LayeredCache.Proofs.Layer.Prompt

/-!
# What is built under blocking answers at once

The built-in kinds of decorators make a prompt cache of a prompt one, and an application can add others
that do. A specification of such kinds with blocking builds a prompt chain under synchronization and
blocking.
-/

namespace LayeredCache

/-! ## Kinds of decorators -/

/-- A kind of decorator that makes a prompt cache of a prompt one. Some states of its own leave the locks
free; a new layer is in one of them, and attributes lead from one to another. -/
structure DecoratorModel.Prompt (model : DecoratorModel) (free : model.State → Prop) : Prop where
  make {now own} : model.make now = .ok own → free own
  assign {own} (name value) : free own → free (model.attributes.assign name value own).2
  start {own} : free own → free (model.attributes.start own).2
  unlocked {σ : Type} {inner : Cache σ} {own s} : free own → inner.unlocked s = true →
    (model.around inner).unlocked (own, s) = true
  around {σ : Type} {inner : Cache σ} : inner.Prompt → (model.around inner).Prompt

namespace DecoratorModel.Prompt

variable {model : DecoratorModel} {free : model.State → Prop} {id typeName : String}
  {own own' : model.State}

/-- The states that a binding leads to leave the locks free, even if it fails. -/
lemma bindAll (h : model.Prompt free) (id : String) (entries : List (String × String)) {own : model.State}
    (hown : free own) : free (model.attributes.bindAll id entries own).2 := by
  induction entries generalizing own with
  | nil => exact hown
  | cons entry entries ih =>
    obtain ⟨name, raw⟩ := entry
    unfold Attributes.bindAll
    split
    · -- a property without an attribute
      exact ih hown
    · split
      · exact hown
      · rename_i value _
        have hassigned := h.assign name value hown
        split
        · rename_i hassign
          rw [hassign] at hassigned
          exact hassigned
        · rename_i hassign
          rw [hassign] at hassigned
          exact ih hassigned

lemma bound (h : model.Prompt free) {properties : Properties} (hown : free own)
    (hbound : model.attributes.bound id typeName properties own = .ok own') : free own' := by
  have hbind : free (model.attributes.bind id typeName properties own).2 := by
    unfold Attributes.bind
    have hassigned : free (if model.attributes.configurable own then
        model.attributes.bindAll id properties.entries own else (.ok (), own)).2 := by
      split
      · exact h.bindAll id properties.entries hown
      · exact hown
    split
    · rename_i hassign
      rw [hassign] at hassigned
      exact hassigned
    · rename_i hassign
      rw [hassign] at hassigned
      have hstarted := h.start hassigned
      split
      all_goals
        rename_i hstart
        rw [hstart] at hstarted
        exact hstarted
  unfold Attributes.bound at hbound
  split at hbound
  · cases hbound
  · rename_i hstate
    rw [hstate] at hbind
    rw [← Except.ok.inj hbound]
    exact hbind

end DecoratorModel.Prompt

/-- A kind that leaves the locks free in every state of its own. -/
lemma DecoratorModel.prompt_of_any {model : DecoratorModel}
    (hunlocked : ∀ {σ : Type} {inner : Cache σ} {own s}, inner.unlocked s = true →
      (model.around inner).unlocked (own, s) = true)
    (haround : ∀ {σ : Type} {inner : Cache σ}, inner.Prompt → (model.around inner).Prompt) :
    model.Prompt fun _ => True :=
  ⟨fun _ => trivial, fun _ _ _ => trivial, fun _ => trivial, fun _ => hunlocked, haround⟩

variable {E : Extension}

/-- Every built-in kind but blocking makes a prompt cache of a prompt one. -/
lemma DecoratorKind.exists_prompt (kind : DecoratorKind E) (hblocking : kind ≠ .blocking)
    (hadded : ∀ added, kind = .added added → ∃ free, (E.decorator added).Prompt free) :
    ∃ free, kind.model.Prompt free := by
  cases kind with
  | lru => exact ⟨_, DecoratorModel.prompt_of_any (fun hs => hs) Lru.prompt⟩
  | fifo => exact ⟨_, DecoratorModel.prompt_of_any (fun hs => hs) Fifo.prompt⟩
  | scheduled => exact ⟨_, DecoratorModel.prompt_of_any (fun hs => hs) Scheduled.prompt⟩
  | serialized => exact ⟨_, DecoratorModel.prompt_of_any (fun hs => hs) Serialized.prompt⟩
  | logging => exact ⟨_, DecoratorModel.prompt_of_any (fun hs => hs) Logging.prompt⟩
  | synchronized =>
    refine ⟨fun own : Synchronized => own.locked = false, ?_, fun _ _ => id, id, ?_, Synchronized.prompt⟩
    · intro now own hmake
      rw [← Except.ok.inj hmake]
      rfl
    · intro σ inner own s hfree hs
      show (!own.locked && inner.unlocked s) = true
      rw [hfree, hs]
      rfl
  | blocking => exact absurd rfl hblocking
  | added added => exact hadded added rfl

/-! ## Prompt stacks -/

/-- A stack with free locks that answers at once. -/
structure Stack.Prompt (stack : Stack E) : Prop where
  cache : stack.cache.Prompt
  unlocked : stack.cache.unlocked stack.state = true

/-- A layer with free locks that makes a prompt cache of a prompt one. -/
def Layer.Prompt (layer : Layer E) : Prop :=
  ∃ free, layer.kind.model.Prompt free ∧ free layer.own

lemma Layer.prompt_of_any {layer : Layer E}
    (hunlocked : ∀ {σ : Type} {inner : Cache σ} {own s}, inner.unlocked s = true →
      (layer.kind.model.around inner).unlocked (own, s) = true)
    (haround : ∀ {σ : Type} {inner : Cache σ}, inner.Prompt → (layer.kind.model.around inner).Prompt) :
    layer.Prompt :=
  ⟨_, DecoratorModel.prompt_of_any hunlocked haround, trivial⟩

lemma Stack.Prompt.wrapAll {stack : Stack E} {layers : List (Layer E)} (h : stack.Prompt)
    (hlayers : ∀ layer ∈ layers, layer.Prompt) : (stack.wrapAll layers).Prompt := by
  induction layers generalizing stack with
  | nil => exact h
  | cons layer layers ih =>
    obtain ⟨⟨free, hmodel, hfree⟩, hlayers⟩ := List.forall_mem_cons.1 hlayers
    exact ih ⟨hmodel.around h.cache, hmodel.unlocked hfree h.unlocked⟩ hlayers

lemma Layer.Prompt.resize {layer layer' : Layer E} {n : Int} (h : layer.Prompt)
    (hresize : layer.resize n = .ok layer') : layer'.Prompt := by
  obtain ⟨free, hmodel, hfree⟩ := h
  unfold Layer.resize at hresize
  split at hresize
  · split at hresize
    · rename_i hassign
      have hassigned := hmodel.assign "size" (.int n) hfree
      rw [hassign] at hassigned
      rw [← Except.ok.inj hresize]
      exact ⟨free, hmodel, hassigned⟩
    · cases hresize
  · rw [← Except.ok.inj hresize]
    exact ⟨free, hmodel, hfree⟩

namespace Spec

variable {spec : Spec E} {now : Nat}

lemma prompt_of_fresh {kind : DecoratorKind E} {layer : Layer E} {free : kind.model.State → Prop}
    (hmodel : kind.model.Prompt free) (h : spec.fresh now kind = .ok layer) : layer.Prompt := by
  obtain ⟨made, own, hmake, hbound, rfl⟩ := fresh_eq_ok.1 h
  exact ⟨free, hmodel, hmodel.bound (hmodel.make hmake) hbound⟩

lemma Sized.prompt {layers layers' : List (Layer E)} (h : spec.Sized layers layers')
    (hlayers : ∀ layer ∈ layers, layer.Prompt) : ∀ layer ∈ layers', layer.Prompt := by
  cases h with
  | unset => exact hlayers
  | bare => exact hlayers
  | last _ hresize =>
    rw [List.forall_mem_append, List.forall_mem_singleton] at hlayers ⊢
    exact ⟨hlayers.1, hlayers.2.resize hresize⟩

/-- The decorators of the specification that an application has added are prompt. They can be anything, and
one that waits forever would keep every worker waiting. -/
def AddsPrompt (spec : Spec E) : Prop :=
  ∀ t ∈ spec.effectiveDecorators, ∀ added, t.decorator? = some (.added added) →
    ∃ free, (E.decorator added).Prompt free

lemma Layered.prompt {layers : List (Layer E)} (h : spec.Layered now spec.effectiveDecorators layers)
    (hadded : spec.AddsPrompt) : ∀ layer ∈ layers, layer.Prompt := by
  intro layer hlayer
  obtain ⟨t, ht, hkind⟩ := h.exists_decoratorKind layer hlayer
  obtain ⟨free, hmodel⟩ := layer.kind.exists_prompt (ne_blocking_of_decoratorKind hkind) fun added heq =>
    hadded t ht added (heq ▸ (decoratorKind_eq_ok.1 hkind).2)
  exact prompt_of_fresh hmodel (h.fresh layer hlayer)

lemma syncedLayers_prompt : ∀ layer ∈ spec.syncedLayers now, layer.Prompt := by
  rw [syncedLayers, List.forall_mem_append, List.forall_mem_append, List.forall_mem_singleton]
  refine ⟨⟨?_, ?_⟩, Layer.prompt_of_any (fun hs => hs) Logging.prompt⟩
  · unfold scheduledLayers
    split
    · exact List.forall_mem_singleton.2 (Layer.prompt_of_any (fun hs => hs) Scheduled.prompt)
    · simp
  · split
    · exact List.forall_mem_singleton.2 (Layer.prompt_of_any (fun hs => hs) Serialized.prompt)
    · simp

/-- Under blocking and synchronization, a built cache is a prompt chain with free locks. -/
theorem build_eq_blocking {stack : Stack E} (hbuild : spec.build now = .ok stack)
    (hperpetual : spec.storage.isPerpetual = true) (hblocking : spec.blocking = true)
    (hadded : spec.AddsPrompt) :
    ∃ (ds : List (DecoratorKind E)) (state : Chain .perpetual ds),
      stack = ⟨.perpetual, .blocking :: .synchronized :: ds,
        (Blocking.empty spec.blockingTimeout, Synchronized.free, state)⟩ ∧
      (Chain.cache .perpetual ds).Prompt ∧ (Chain.cache .perpetual ds).unlocked state = true := by
  obtain ⟨-, -, layers, layers', hlayers, hsized, rfl⟩ := (build_eq_ok hperpetual).1 hbuild
  have hbase : (Stack.base (E := E) .perpetual (Perpetual.empty spec.id)).Prompt :=
    ⟨Perpetual.prompt, rfl⟩
  have hinner := (hbase.wrapAll (hsized.prompt (hlayers.prompt hadded))).wrapAll
    (@syncedLayers_prompt E spec now)
  have hstorage := Stack.storage_wrapAll (Stack.base (E := E) .perpetual (Perpetual.empty spec.id))
    (layers' ++ spec.syncedLayers now)
  rw [standardLayers, hblocking, if_pos rfl, ← List.append_assoc, ← List.append_assoc,
    Stack.wrapAll_append, Stack.wrapAll_append]
  rw [Stack.wrapAll_append] at hstorage ⊢
  -- what is beneath synchronization is some chain around the perpetual storage
  generalize (Stack.wrapAll _ (spec.syncedLayers now)) = inner at hinner hstorage ⊢
  obtain ⟨storage, ds, state⟩ := inner
  subst hstorage
  exact ⟨ds, state, rfl, hinner.cache, hinner.unlocked⟩

end Spec

end LayeredCache
