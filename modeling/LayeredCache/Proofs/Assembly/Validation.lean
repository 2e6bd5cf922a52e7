import LayeredCache.Proofs.Assembly.Buildable

/-!
# Checks before a build

A check goes through the references of a specification without making anything, and a build makes a layer of
each as it comes to it. Both meet the same first reference that stands for no layer in its place. So they agree
on it, unless the build fails before: at the storage or at a decorator in front of that reference.
-/

namespace LayeredCache

variable {E : Extension}

/-! ## Failures that are not those of a reference -/

/-- A reference stands for no layer in its place. -/
def CacheError.isReferenceFault : CacheError → Bool
  | .invalidStorage .. => true
  | .invalidDecorator .. => true
  | .standardOnly .. => true
  | _ => false

lemma PropertyKind.coerce_candid {kind : PropertyKind} {id property raw : String} {e : CacheError}
    (h : kind.coerce id property raw = .error e) : e.isReferenceFault = false := by
  -- whatever is read, a text that is no value of the kind is an invalid property
  have hinteger (bits : Nat) (make : Int → PropertyValue)
      (h : readInteger property kind bits make raw = .error e) : e.isReferenceFault = false := by
    unfold readInteger at h
    split at h
    · cases h
    · exact Except.error.inj h ▸ rfl
  have hfloat (f : Decimal.BinaryFormat) (make : Decimal.Binary → PropertyValue)
      (h : readFloat property kind f make raw = .error e) : e.isReferenceFault = false := by
    unfold readFloat at h
    split at h
    · cases h
    · exact Except.error.inj h ▸ rfl
  cases kind with
  | text => cases h
  | int => exact hinteger _ _ h
  | long => exact hinteger _ _ h
  | short => exact hinteger _ _ h
  | byte => exact hinteger _ _ h
  | float => exact hfloat _ _ h
  | double => exact hfloat _ _ h
  | bool => cases h
  | other typeName => exact Except.error.inj h ▸ rfl

namespace Attributes

variable {τ : Type} {attributes : Attributes τ} {id typeName : String} {properties : Properties} {state : τ}
  {e : CacheError}

/-- No assignment fails as a reference does. -/
def Candid (attributes : Attributes τ) : Prop :=
  ∀ name value state e, (attributes.assign name value state).1 = .error e → e.isReferenceFault = false

lemma candid_none : (none : Attributes τ).Candid :=
  fun _ _ _ _ => nofun

lemma candid_single {name : String} {kind : PropertyKind} {assign : PropertyValue → τ → Except CacheError τ}
    (h : ∀ value state e, assign value state = .error e → e.isReferenceFault = false) :
    (single name kind assign).Candid := by
  intro other value state e he
  simp only [single] at he
  split at he
  · split at he
    · cases he
    · rename_i e' hassign
      exact Except.error.inj he ▸ h value state e' hassign
  · cases he

lemma Candid.bindAll (h : attributes.Candid) (entries : List (String × String))
    (he : (attributes.bindAll id entries state).1 = .error e) : e.isReferenceFault = false := by
  induction entries generalizing state with
  | nil => cases he
  | cons entry entries ih =>
    obtain ⟨name, raw⟩ := entry
    rw [Attributes.bindAll] at he
    split at he
    · exact ih he
    · split at he
      · rename_i e' hcoerce
        exact Except.error.inj he ▸ PropertyKind.coerce_candid hcoerce
      · split at he
        · rename_i e' state' hassign
          exact Except.error.inj he ▸ h name _ state e' (congrArg Prod.fst hassign)
        · exact ih he

lemma Candid.bind (h : attributes.Candid) (he : (attributes.bind id typeName properties state).1 = .error e) :
    e.isReferenceFault = false := by
  rw [Attributes.bind] at he
  split at he
  · rename_i e' rest hassigned
    obtain rfl := Except.error.inj he
    split at hassigned
    · exact h.bindAll properties.entries (congrArg Prod.fst hassigned)
    · cases hassigned
  · -- all properties are assigned, so it is the start that fails
    split at he
    · cases he
    · exact Except.error.inj he ▸ rfl

lemma bound_eq_error : attributes.bound id typeName properties state = .error e ↔
    (attributes.bind id typeName properties state).1 = .error e := by
  rw [bound]
  split
  · rename_i e' rest hbind
    rw [hbind, Except.error.injEq, Except.error.injEq]
  · rename_i rest hbind
    simp only [hbind, reduceCtorEq]

end Attributes

/-! ## Layers that cannot be made -/

lemma map_eq_error {ε α β : Type} {f : α → β} {x : Except ε α} {e : ε} : x.map f = .error e ↔ x = .error e := by
  cases x <;> simp [Except.map]

lemma Capacity.candid_ofValue {value : PropertyValue} {e : CacheError} (h : ofValue value = .error e) :
    e.isReferenceFault = false := by
  cases value with
  | int n =>
    rw [ofValue, ofInt] at h
    split at h
    · cases h
    · exact Except.error.inj h ▸ rfl
  | _ => exact Except.error.inj h ▸ rfl

lemma Scheduled.candid_intervalOf {value : PropertyValue} {e : CacheError} (h : intervalOf value = .error e) :
    e.isReferenceFault = false := by
  unfold intervalOf at h
  split at h
  · exact Except.error.inj h ▸ rfl
  · split at h
    · exact Except.error.inj h ▸ rfl
    · cases h

lemma Blocking.candid_timeoutOf {value : PropertyValue} {e : CacheError} (h : timeoutOf value = .error e) :
    e.isReferenceFault = false := by
  unfold timeoutOf at h
  split at h
  · exact Except.error.inj h ▸ rfl
  · cases h

lemma DecoratorKind.candid {kind : DecoratorKind E}
    (h : ∀ added, kind = .added added → (E.decorator added).attributes.Candid) :
    kind.model.attributes.Candid := by
  cases kind with
  | lru => exact Attributes.candid_single fun _ _ _ he => Capacity.candid_ofValue (map_eq_error.1 he)
  | fifo => exact Attributes.candid_single fun _ _ _ he => Capacity.candid_ofValue (map_eq_error.1 he)
  | scheduled => exact Attributes.candid_single fun _ _ _ he => Scheduled.candid_intervalOf (map_eq_error.1 he)
  | blocking => exact Attributes.candid_single fun _ _ _ he => Blocking.candid_timeoutOf (map_eq_error.1 he)
  | serialized => exact Attributes.candid_none
  | logging => exact Attributes.candid_none
  | synchronized => exact Attributes.candid_none
  | added added => exact h added rfl

lemma StorageKind.candid {kind : StorageKind E}
    (h : ∀ added, kind = .added added → (E.storage added).attributes.Candid) :
    kind.model.attributes.Candid := by
  cases kind with
  | perpetual => exact Attributes.candid_none
  | added added => exact h added rfl

namespace Spec

variable {spec : Spec E} {now : Nat} {stack : Stack E} {e : CacheError} {t : LayerType E} {ts : List (LayerType E)}

/-- No layer of an application's own kind that the specification names fails as a reference does when it is
given its properties. -/
structure Candid (spec : Spec E) : Prop where
  storage : ∀ added, spec.storage.storage? = some (.added added) → (E.storage added).attributes.Candid
  decorators : ∀ added, .added added ∈ spec.kinds → (E.decorator added).attributes.Candid

lemma candid_of_fresh {kind : DecoratorKind E} (h : kind.model.attributes.Candid)
    (hfresh : spec.fresh now kind = .error e) : e.isReferenceFault = false := by
  unfold fresh at hfresh
  split at hfresh
  · exact Except.error.inj hfresh ▸ rfl
  · exact h.bind (Attributes.bound_eq_error.1 (map_eq_error.1 hfresh))

lemma candid_of_resize {n : Int} {layer : Layer E} (h : layer.kind.model.attributes.Candid)
    (hresize : layer.resize n = .error e) : e.isReferenceFault = false := by
  unfold Layer.resize at hresize
  split at hresize
  · split at hresize
    · cases hresize
    · rename_i hassign
      exact Except.error.inj hresize ▸ h "size" _ layer.own _ (congrArg Prod.fst hassign)
  · cases hresize

lemma Candid.buildStorage (h : spec.Candid) {kind : StorageKind E}
    (hkind : spec.storageKind spec.storage = .ok kind) (hbuild : spec.buildStorage spec.storage = .error e) :
    e.isReferenceFault = false := by
  have hcandid : kind.model.attributes.Candid :=
    StorageKind.candid fun added heq => h.storage added (heq ▸ storageKind_eq_ok.1 hkind)
  rw [Spec.buildStorage, hkind] at hbuild
  simp only at hbuild
  split at hbuild
  · exact Except.error.inj hbuild ▸ rfl
  · split at hbuild
    · rename_i hbind
      exact Except.error.inj hbuild ▸ hcandid.bind (congrArg Prod.fst hbind)
    · cases hbuild

lemma Candid.decorator (h : spec.Candid) {kind : DecoratorKind E} (ht : t ∈ spec.effectiveDecorators)
    (hkind : spec.decoratorKind t = .ok kind) : kind.model.attributes.Candid :=
  DecoratorKind.candid fun added heq => h.decorators added (heq ▸ mem_kinds ht (decoratorKind_eq_ok.1 hkind).2)

/-! ## The first reference that stands for no layer -/

lemma checkDecorators_eq_ok : spec.checkDecorators ts = .ok () ↔ ∀ t ∈ ts, ∃ kind, spec.decoratorKind t = .ok kind := by
  induction ts with
  | nil => simp [checkDecorators]
  | cons t ts ih =>
    rw [checkDecorators, List.forall_mem_cons]
    cases spec.decoratorKind t <;> simp [ih]

/-- The check comes to the first reference that stands for no decorator. -/
lemma checkDecorators_append {before after : List (LayerType E)}
    (hbefore : ∀ u ∈ before, ∃ kind, spec.decoratorKind u = .ok kind) (ht : spec.decoratorKind t = .error e) :
    spec.checkDecorators (before ++ t :: after) = .error e := by
  induction before with
  | nil => rw [List.nil_append, checkDecorators, ht]
  | cons u before ih =>
    obtain ⟨⟨kind, hkind⟩, hrest⟩ := List.forall_mem_cons.1 hbefore
    rw [List.cons_append, checkDecorators, hkind]
    exact ih hrest

lemma exists_of_checkDecorators_eq_error (h : spec.checkDecorators ts = .error e) :
    ∃ before t after, ts = before ++ t :: after ∧ (∀ u ∈ before, ∃ kind, spec.decoratorKind u = .ok kind) ∧
      spec.decoratorKind t = .error e := by
  induction ts with
  | nil => cases h
  | cons t ts ih =>
    rw [checkDecorators] at h
    cases hkind : spec.decoratorKind t with
    | error e' =>
      rw [hkind] at h
      exact ⟨[], t, ts, rfl, by simp, Except.error.inj h ▸ hkind⟩
    | ok kind =>
      rw [hkind] at h
      obtain ⟨before, u, after, rfl, hbefore, hu⟩ := ih h
      exact ⟨t :: before, u, after, rfl, List.forall_mem_cons.2 ⟨⟨kind, hkind⟩, hbefore⟩, hu⟩

/-! ## The first layer that cannot be made -/

lemma addDecorator_eq_error : spec.addDecorator now stack t = .error e ↔
    spec.decoratorKind t = .error e ∨ ∃ kind, spec.decoratorKind t = .ok kind ∧ spec.fresh now kind = .error e := by
  cases hkind : spec.decoratorKind t with
  | error e' => simp [addDecorator, hkind]
  | ok kind =>
    have hname := LayerType.name_of_decorator? (decoratorKind_eq_ok.1 hkind).2
    simp only [addDecorator, hkind, reduceCtorEq, Except.ok.injEq, false_or, exists_eq_left', fresh]
    cases kind.model.make now with
    | error source => simp only [hname, Except.error.injEq]
    | ok own =>
      simp only [map_eq_error, Attributes.bound_eq_error]
      rcases kind.model.attributes.bind spec.id kind.model.name spec.properties own with ⟨outcome, own'⟩
      cases outcome <;> simp

/-- The storage cannot be made, given its properties and started, or it can and the first of some decorators that
cannot fails so. All those references stand for layers. -/
inductive FailsToMake (spec : Spec E) (now : Nat) (ts : List (LayerType E)) (e : CacheError) : Prop
  | storage {kind} : spec.storageKind spec.storage = .ok kind → spec.buildStorage spec.storage = .error e →
    FailsToMake spec now ts e
  | decorator {bottom earlier t later layers kind} : spec.buildStorage spec.storage = .ok bottom →
    ts = earlier ++ t :: later → spec.Layered now earlier layers → spec.decoratorKind t = .ok kind →
    spec.fresh now kind = .error e → FailsToMake spec now ts e

lemma addDecorators_append (inner outer : List (LayerType E)) : spec.addDecorators now (inner ++ outer) stack =
    match spec.addDecorators now inner stack with
    | .error e => .error e
    | .ok stack => spec.addDecorators now outer stack := by
  induction inner generalizing stack with
  | nil => rfl
  | cons t inner ih =>
    rw [List.cons_append, addDecorators, addDecorators]
    cases spec.addDecorator now stack t with
    | error e => rfl
    | ok next => exact ih

/-- A decorator that cannot be made ends the build of some. -/
lemma addDecorators_eq_error : spec.addDecorators now ts stack = .error e ↔
    ∃ before t after layers, ts = before ++ t :: after ∧ spec.Layered now before layers ∧
      (spec.decoratorKind t = .error e ∨ ∃ kind, spec.decoratorKind t = .ok kind ∧ spec.fresh now kind = .error e) := by
  constructor
  · intro h
    induction ts generalizing stack with
    | nil => cases h
    | cons t ts ih =>
      rw [addDecorators] at h
      cases hfirst : spec.addDecorator now stack t with
      | error e' =>
        rw [hfirst] at h
        obtain rfl := Except.error.inj h
        exact ⟨[], t, ts, [], rfl, ⟨.nil, by simp⟩, addDecorator_eq_error.1 hfirst⟩
      | ok next =>
        rw [hfirst] at h
        obtain ⟨before, u, after, layers, rfl, hlayers, hu⟩ := ih h
        obtain ⟨kind, layer, hkind, hfresh, -⟩ := addDecorator_eq_ok.1 hfirst
        obtain rfl := kind_of_fresh hfresh
        exact ⟨t :: before, u, after, layer :: layers, rfl,
          ⟨.cons hkind hlayers.kinds, List.forall_mem_cons.2 ⟨hfresh, hlayers.fresh⟩⟩, hu⟩
  · rintro ⟨before, t, after, layers, rfl, hlayers, ht⟩
    rw [addDecorators_append, addDecorators_eq_ok.2 ⟨layers, hlayers, rfl⟩]
    simp only [addDecorators, addDecorator_eq_error.2 ht]

/-- The first reference that stands for no layer in its place: the storage, or around the perpetual storage the
one after the decorators `before`. -/
inductive FirstFault (spec : Spec E) : List (LayerType E) → CacheError → Prop
  | storage {e : CacheError} : spec.storageKind spec.storage = .error e → FirstFault spec [] e
  | decorator {kind before after} {t : LayerType E} {e : CacheError} : spec.storageKind spec.storage = .ok kind →
    spec.storage.isPerpetual = true → spec.effectiveDecorators = before ++ t :: after →
    (∀ u ∈ before, ∃ kind, spec.decoratorKind u = .ok kind) → spec.decoratorKind t = .error e →
    FirstFault spec before e

/-- The check fails at the first fault. -/
lemma validate_eq_error : spec.validate = .error e ↔ ∃ before, spec.FirstFault before e := by
  constructor
  · intro h
    rw [validate] at h
    cases hstorage : spec.storageKind spec.storage with
    | error e' =>
      rw [hstorage] at h
      obtain rfl := Except.error.inj h
      exact ⟨[], .storage hstorage⟩
    | ok kind =>
      simp only [hstorage] at h
      split at h
      · rename_i hperpetual
        obtain ⟨before, t, after, hsplit, hbefore, ht⟩ := exists_of_checkDecorators_eq_error h
        exact ⟨before, .decorator hstorage hperpetual hsplit hbefore ht⟩
      · cases h
  · rintro ⟨before, hfault⟩
    cases hfault with
    | storage hstorage => rw [validate, hstorage]
    | decorator hstorage hperpetual hsplit hbefore ht =>
      simp only [validate, hstorage, hperpetual, if_true, hsplit]
      exact checkDecorators_append hbefore ht

/-- The capacity stage fails only at a layer that refuses the capacity. -/
lemma exists_of_apply_size_eq_error {p : Perpetual} {layers : List (Layer E)}
    (h : Stage.apply spec now ((Stack.base .perpetual p).wrapAll layers) .size = .error e) :
    ∃ n, spec.size = some n ∧ ∃ layer ∈ layers, layer.resize n = .error e := by
  rw [Stage.apply] at h
  split at h
  · rename_i n hsize
    rcases List.eq_nil_or_concat layers with rfl | ⟨inner, last, rfl⟩
    · -- the storage itself has no capacity
      have hbare : Stage.bindSize n (Stack.base (E := E) .perpetual p) = .ok (Stack.base .perpetual p) :=
        if_neg fun hsize => Bool.false_ne_true hsize.1
      rw [Stack.wrapAll_nil, hbare] at h
      cases h
    · rw [List.concat_eq_append, Stack.wrapAll_append, Stack.wrapAll_cons, Stack.wrapAll_nil,
        Stage.bindSize_wrap] at h
      exact ⟨n, hsize, last, by simp, map_eq_error.1 h⟩
  · cases h

/-! ## The check and the build -/

lemma validate_of_build (hbuild : spec.build now = .ok stack) : spec.validate = .ok () := by
  cases hperpetual : spec.storage.isPerpetual with
  | true =>
    obtain ⟨hstorage, -, layers, -, hlayers, -⟩ := (build_eq_ok hperpetual).1 hbuild
    simp only [validate, storageKind, hstorage, hperpetual, if_true]
    refine checkDecorators_eq_ok.2 fun t ht => ?_
    exact (exists_layered.1 ⟨layers, hlayers⟩ t ht).imp fun kind hkind => hkind.1
  | false =>
    rw [build] at hbuild
    cases hkind : spec.storageKind spec.storage with
    | error e =>
      rw [buildStorage, hkind] at hbuild
      cases hbuild
    | ok kind =>
      simp only [validate, hkind, hperpetual]
      rfl

/-- Why a build fails: at the first reference that stands for no layer, at a layer that cannot be made, or at a
layer that refuses the capacity. -/
lemma build_error_cases (hbuild : spec.build now = .error e) :
    (∃ before, spec.FirstFault before e) ∨ spec.FailsToMake now spec.effectiveDecorators e ∨
      ∃ (n : Int) (layer : Layer E), spec.size = some n ∧
        (∃ t ∈ spec.effectiveDecorators, spec.decoratorKind t = .ok layer.kind) ∧ layer.resize n = .error e := by
  rw [build] at hbuild
  cases hkind : spec.storageKind spec.storage with
  | error e' =>
    rw [buildStorage, hkind] at hbuild
    exact .inl ⟨[], .storage (Except.error.inj hbuild ▸ hkind)⟩
  | ok kind =>
    cases hstorage : spec.buildStorage spec.storage with
    | error e' =>
      rw [hstorage] at hbuild
      exact .inr (.inl (.storage hkind (Except.error.inj hbuild ▸ hstorage)))
    | ok bottom =>
      simp only [hstorage] at hbuild
      split at hbuild
      · rename_i hperpetual
        split at hbuild
        · rename_i e' hdecorators
          obtain rfl := Except.error.inj hbuild
          obtain ⟨before, t, after, layers, hsplit, hlayers, ht | ⟨kind', hkind', hfresh⟩⟩ :=
            addDecorators_eq_error.1 hdecorators
          · refine .inl ⟨before, .decorator hkind hperpetual hsplit (fun u hu => ?_) ht⟩
            exact (exists_layered.1 ⟨layers, hlayers⟩ u hu).imp fun _ hlayer => hlayer.1
          · exact .inr (.inl (.decorator hstorage hsplit hlayers hkind' hfresh))
        · -- the capacity stage is the only one that can fail
          rename_i custom hdecorators
          obtain ⟨-, -, rfl⟩ := (buildStorage_eq_ok hperpetual).1 hstorage
          obtain ⟨layers, hlayers, rfl⟩ := addDecorators_eq_ok.1 hdecorators
          rw [Stage.applyEnabled_all] at hbuild
          split at hbuild
          · rename_i e' hsize
            obtain ⟨n, hsome, layer, hlayer, hresize⟩ := exists_of_apply_size_eq_error hsize
            exact .inr (.inr ⟨n, layer, hsome, hlayers.exists_decoratorKind layer hlayer,
              Except.error.inj hbuild ▸ hresize⟩)
          · cases hbuild
      · split at hbuild <;> cases hbuild

lemma FailsToMake.candid (h : spec.FailsToMake now spec.effectiveDecorators e) (hcandid : spec.Candid) :
    e.isReferenceFault = false := by
  cases h with
  | storage hkind hstorage => exact hcandid.buildStorage hkind hstorage
  | decorator _ hsplit _ hkind hfresh =>
    exact candid_of_fresh (hcandid.decorator (hsplit ▸ by simp) hkind) hfresh

lemma validate_of_build_eq_error (hcandid : spec.Candid) (hbuild : spec.build now = .error e)
    (he : e.isReferenceFault = true) : spec.validate = .error e := by
  rcases build_error_cases hbuild with hfault | hfails | ⟨n, layer, -, ⟨t, ht, hkind⟩, hresize⟩
  · exact validate_eq_error.2 hfault
  · exact absurd he (Bool.eq_false_iff.1 (hfails.candid hcandid))
  · exact absurd he (Bool.eq_false_iff.1 (candid_of_resize (hcandid.decorator ht hkind) hresize))

/-- Either the build comes to the first fault and fails there, or it fails to make what comes before. -/
lemma build_of_firstFault {before : List (LayerType E)} (h : spec.FirstFault before e) :
    (spec.build now = .error e ∧ ∀ e', ¬spec.FailsToMake now before e') ∨
      ∃ e', spec.build now = .error e' ∧ spec.FailsToMake now before e' := by
  cases h with
  | storage hkind =>
    refine .inl ⟨by rw [build, buildStorage, hkind], fun e' hfails => ?_⟩
    cases hfails with
    | storage hkind' => rw [hkind] at hkind'; cases hkind'
    | decorator _ hsplit => simp at hsplit
  | @decorator kind before t after e hkind hperpetual hsplit hbefore ht =>
    cases hstorage : spec.buildStorage spec.storage with
    | error e' => exact .inr ⟨e', by rw [build, hstorage], .storage hkind hstorage⟩
    | ok bottom =>
      have hbuild {e'} (h : spec.addDecorators now spec.effectiveDecorators bottom = .error e') :
          spec.build now = .error e' := by
        simp only [build, hstorage, hperpetual, if_true, h]
      cases hdecorators : spec.addDecorators now before bottom with
      | error e' =>
        refine .inr ⟨e', hbuild ?_, ?_⟩
        · rw [hsplit, addDecorators_append, hdecorators]
        · obtain ⟨earlier, u, later, layers, rfl, hlayers, hu | ⟨kind', hkind', hfresh⟩⟩ :=
            addDecorators_eq_error.1 hdecorators
          · obtain ⟨kind', hkind'⟩ := hbefore u (by simp)
            rw [hkind'] at hu
            cases hu
          · exact .decorator hstorage rfl hlayers hkind' hfresh
      | ok custom =>
        refine .inl ⟨hbuild ?_, fun e' hfails => ?_⟩
        · rw [hsplit, addDecorators_append, hdecorators]
          simp only [addDecorators, addDecorator_eq_error.2 (.inl ht)]
        · cases hfails with
          | storage _ hfailed =>
            rw [hstorage] at hfailed
            cases hfailed
          | decorator _ hearlier hlayers hkind' hfresh =>
            rw [addDecorators_eq_error.2 ⟨_, _, _, _, hearlier, hlayers, .inr ⟨_, hkind', hfresh⟩⟩] at hdecorators
            cases hdecorators

/-- What is built passes the check. A build that fails as a reference does fails as the check does. If the check
fails, at a reference after the decorators `before`, then the build fails as the check does unless the storage or
one of those decorators cannot be made, given its properties and started, and then it fails in that way. -/
theorem validate_agrees_with_build (spec : Spec E) (now : Nat) (hcandid : spec.Candid) :
    (∀ stack, spec.build now = .ok stack → spec.validate = .ok ()) ∧
    (∀ e, e.isReferenceFault = true → spec.build now = .error e → spec.validate = .error e) ∧
    ∀ e, spec.validate = .error e → ∃ before, spec.FirstFault before e ∧
      ((spec.build now = .error e ∧ ∀ e', ¬spec.FailsToMake now before e') ∨
        ∃ e', spec.build now = .error e' ∧ spec.FailsToMake now before e') := by
  refine ⟨fun stack hbuild => validate_of_build hbuild, fun e he hbuild =>
    validate_of_build_eq_error hcandid hbuild he, fun e hvalidate => ?_⟩
  obtain ⟨before, hfault⟩ := validate_eq_error.1 hvalidate
  exact ⟨before, hfault, build_of_firstFault hfault⟩

/-- A kind of decorator that knows one mode only, as an application might add it. -/
def withMode : Extension where
  Storage := Empty
  Decorator := Unit
  storage := nofun
  decorator _ :=
    { name := "app::Moded"
      State := Unit
      around := Cache.forward Unit
      attributes := .single "mode" .text fun value state =>
        if value = .text "strict" then .ok state else .error (.invalidRequest "unknown mode")
      make := fun _ => .ok () }

/-- Blocking is named as a custom decorator, after a decorator in some mode. -/
def inMode (mode : String) : Spec withMode :=
  { Spec.new "users" with
    decorators := [.decorator (.added ()), .decorator .blocking]
    properties := .ofList [("mode", mode)] }

lemma candid_inMode (mode : String) : (inMode mode).Candid where
  storage := nofun
  decorators added _ := by
    refine Attributes.candid_single fun value state e he => ?_
    split at he
    · cases he
    · exact Except.error.inj he ▸ rfl

/-- In the mode that is known, the build and the check fail at the blocking decorator. In another mode the check
still does, and the build fails at the decorator before it. -/
theorem validate_agrees_with_build_inMode :
    (inMode "strict").validate =
      .error (.standardOnly "users" "cache_assembler::cache::decorators::blocking::BlockingCache") ∧
    (inMode "lax").build 0 = .error (.invalidRequest "unknown mode") ∧
    ∃ before, (inMode "lax").FirstFault before
        (.standardOnly "users" "cache_assembler::cache::decorators::blocking::BlockingCache") ∧
      (inMode "lax").FailsToMake 0 before (.invalidRequest "unknown mode") := by
  obtain ⟨-, hstrict, -⟩ := validate_agrees_with_build (inMode "strict") 0 (candid_inMode "strict")
  obtain ⟨-, -, hlax⟩ := validate_agrees_with_build (inMode "lax") 0 (candid_inMode "lax")
  have hbuild : (inMode "lax").build 0 = .error (.invalidRequest "unknown mode") := by rfl
  refine ⟨hstrict _ (by rfl) (by rfl), hbuild, ?_⟩
  obtain ⟨before, hfault, ⟨hsame, -⟩ | ⟨e', hother, hfails⟩⟩ := hlax _ (by rfl)
  · -- the build does not fail as the check does
    cases hbuild.symm.trans hsame
  · obtain rfl := Except.error.inj (hbuild.symm.trans hother)
    exact ⟨before, hfault, hfails⟩

end Spec

end LayeredCache
