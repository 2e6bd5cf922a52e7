import LayeredCache.Proofs.Assembly.Steps

/-!
# Equal specifications

Equality of specifications does not ask which ways to make a layer a reference to a type carries, but a build
needs one of them: a storage is made from an id, and a decorator around a cache. So equal specifications are built
into the same stack or fail with the same error, unless one of them lacks the way that the other one has: then its
build fails where it is lacking.
-/

namespace LayeredCache

variable {E : Extension}

/-! ## References to the same types -/

namespace LayerType

/-- Both references mean the same type, and only the second one carries the way to make it. -/
structure Lacks {α : Type} (make? : LayerType E → Option α) (t t' : LayerType E) : Prop where
  identity : t.identity = t'.identity
  bare : make? t = none
  whole : (make? t').isSome = true

variable {t t' : LayerType E} {ts ts' : List (LayerType E)}

/-- What is made depends on the type alone, where the way to make it is carried. -/
lemma eq_or_lacks {α : Type} {make? : LayerType E → Option α} {carries : LayerType E → Bool}
    {kind? : TypeIdentity E → Option α} (hmake : ∀ t, make? t = if carries t then kind? t.identity else none)
    (h : t.identity = t'.identity) : make? t = make? t' ∨ t.Lacks make? t' ∨ t'.Lacks make? t := by
  have hkind {t : LayerType E} {kind : α} (hmade : make? t = some kind) : kind? t.identity = some kind := by
    rw [hmake, Option.ite_none_right_eq_some] at hmade
    exact hmade.2
  cases hfirst : make? t with
  | none =>
    cases hsecond : make? t' with
    | none => exact .inl rfl
    | some kind' => exact .inr (.inl ⟨h, hfirst, by rw [hsecond, Option.isSome_some]⟩)
  | some kind =>
    cases hsecond : make? t' with
    | none => exact .inr (.inr ⟨h.symm, hsecond, by rw [hfirst, Option.isSome_some]⟩)
    | some kind' =>
      have hkinds := congrArg kind? h
      rw [hkind hfirst, hkind hsecond] at hkinds
      exact .inl hkinds

lemma storage?_eq_or_lacks (h : t.identity = t'.identity) :
    t.storage? = t'.storage? ∨ t.Lacks storage? t' ∨ t'.Lacks storage? t :=
  eq_or_lacks (fun _ => rfl) h

lemma decorator?_eq_or_lacks (h : t.identity = t'.identity) :
    t.decorator? = t'.decorator? ∨ t.Lacks decorator? t' ∨ t'.Lacks decorator? t :=
  eq_or_lacks (fun _ => rfl) h

lemma isBlocking_congr (h : t.identity = t'.identity) : t.isBlocking = t'.isBlocking := by
  rw [isBlocking, isBlocking, h]

lemma isPerpetual_congr (h : t.identity = t'.identity) : t.isPerpetual = t'.isPerpetual := by
  rw [isPerpetual, isPerpetual, h]

lemma name_congr (h : t.identity = t'.identity) : t.name = t'.name :=
  congrArg TypeIdentity.name h

lemma identity_of_beq_list (h : (ts == ts') = true) : ts.map identity = ts'.map identity := by
  induction ts generalizing ts' with
  | nil =>
    cases ts' with
    | nil => rfl
    | cons t' ts' => cases h
  | cons t ts ih =>
    cases ts' with
    | nil => cases h
    | cons t' ts' =>
      obtain ⟨hfirst, hrest⟩ := Bool.and_eq_true_iff.1 (show (t == t' && ts == ts') = true from h)
      rw [List.map_cons, List.map_cons, ih hrest, beq_iff_eq.1 (show (t.identity == t'.identity) = true from hfirst)]

lemma identity_of_beq_option {t t' : Option (LayerType E)} (h : (t == t') = true) :
    t.map identity = t'.map identity := by
  cases t with
  | none =>
    cases t' with
    | none => rfl
    | some t' => cases h
  | some t =>
    cases t' with
    | none => cases h
    | some t' => exact congrArg some (beq_iff_eq.1 (show (t.identity == t'.identity) = true from h))

end LayerType

namespace Spec

variable {a b spec : Spec E} {now : Nat} {stack : Stack E} {t t' : LayerType E} {ts ts' : List (LayerType E)}

/-! ## What equality compares -/

/-- Equal specifications differ in their references at most, and those mean the same types. -/
structure Alike (a b : Spec E) : Prop where
  rest : b = { a with implementation := b.implementation, decorators := b.decorators }
  implementation : a.implementation.map LayerType.identity = b.implementation.map LayerType.identity
  decorators : a.decorators.map LayerType.identity = b.decorators.map LayerType.identity

lemma Alike.of_beq (h : (a == b) = true) : a.Alike b := by
  have hparts : (a.id == b.id && a.implementation == b.implementation && a.decorators == b.decorators &&
    a.size == b.size && a.clearInterval == b.clearInterval && a.readWrite == b.readWrite &&
    a.blocking == b.blocking && a.blockingTimeout == b.blockingTimeout &&
    a.properties == b.properties) = true := h
  simp only [Bool.and_eq_true, beq_iff_eq] at hparts
  obtain ⟨⟨⟨⟨⟨⟨⟨⟨hid, himplementation⟩, hdecorators⟩, hsize⟩, hinterval⟩, hreadWrite⟩, hblocking⟩, htimeout⟩,
    hproperties⟩ := hparts
  refine ⟨?_, LayerType.identity_of_beq_option himplementation, LayerType.identity_of_beq_list hdecorators⟩
  rw [hid, hsize, hinterval, hreadWrite, hblocking, htimeout, hproperties]

lemma Alike.storage (h : a.Alike b) : a.storage.identity = b.storage.identity := by
  rw [Spec.storage, Spec.storage, ← Option.getD_map LayerType.identity, ← Option.getD_map LayerType.identity,
    h.implementation]

lemma Alike.effectiveDecorators (h : a.Alike b) :
    a.effectiveDecorators.map LayerType.identity = b.effectiveDecorators.map LayerType.identity := by
  have himplementation := congrArg Option.isNone h.implementation
  have hdecorators := congrArg List.isEmpty h.decorators
  rw [Option.isNone_map, Option.isNone_map] at himplementation
  rw [List.isEmpty_map, List.isEmpty_map] at hdecorators
  rw [Spec.effectiveDecorators, Spec.effectiveDecorators, himplementation, hdecorators]
  split
  · rfl
  · exact h.decorators

/-! ## What a build reads -/

namespace Alike

/-- What does not depend on the references is the same. -/
lemma same {α : Type} (h : a.Alike b) (read : Spec E → α)
    (hread : ∀ spec implementation decorators, read { spec with implementation, decorators } = read spec) :
    read b = read a :=
  (congrArg read h.rest).trans (hread ..)

lemma buildStorage (h : a.Alike b) (t : LayerType E) : b.buildStorage t = a.buildStorage t :=
  h.same (fun spec => spec.buildStorage t) fun _ _ _ => rfl

lemma addDecorators (h : a.Alike b) (ts : List (LayerType E)) (stack : Stack E) :
    b.addDecorators now ts stack = a.addDecorators now ts stack := by
  induction ts generalizing stack with
  | nil => rfl
  | cons t ts ih =>
    have hfirst : b.addDecorator now stack t = a.addDecorator now stack t :=
      h.same (fun spec => spec.addDecorator now stack t) fun _ _ _ => rfl
    rw [Spec.addDecorators, Spec.addDecorators, hfirst]
    cases a.addDecorator now stack t with
    | error e => rfl
    | ok next => exact ih next

lemma applyEnabled (h : a.Alike b) (stack : Stack E) :
    Stage.applyEnabled b now Stage.all stack = Stage.applyEnabled a now Stage.all stack := by
  refine h.same (fun spec => Stage.applyEnabled spec now Stage.all stack) fun _ _ _ => ?_
  rw [Stage.applyEnabled_all, Stage.applyEnabled_all]
  rfl

end Alike

/-- Of a reference to a storage, its name and what it makes count. -/
lemma buildStorage_congr (h : t.identity = t'.identity) (hmake : t.storage? = t'.storage?) :
    spec.buildStorage t = spec.buildStorage t' := by
  rw [buildStorage, buildStorage, storageKind, storageKind, hmake, LayerType.name_congr h]

/-- Of a reference to a decorator it also counts whether it means blocking. -/
lemma addDecorator_congr (stack : Stack E) (h : t.identity = t'.identity) (hmake : t.decorator? = t'.decorator?) :
    spec.addDecorator now stack t = spec.addDecorator now stack t' := by
  rw [addDecorator, addDecorator, decoratorKind, decoratorKind, hmake, LayerType.name_congr h,
    LayerType.isBlocking_congr h]

/-! ## Decorators up to one that is lacking -/

/-- Some decorators come to one that lacks what another reference in its place has, and the build of them
fails there. -/
def StopsWithin (spec : Spec E) (now : Nat) (ts ts' : List (LayerType E)) (stack : Stack E) : Prop :=
  ∃ t t', t.Lacks LayerType.decorator? t' ∧ (t, t') ∈ ts.zip ts' ∧
    spec.addDecorators now ts stack = .error (.invalidDecorator spec.id t.name)

lemma StopsWithin.cons {next : Stack E} (h : spec.StopsWithin now ts ts' next)
    (hfirst : spec.addDecorator now stack t = .ok next) :
    spec.StopsWithin now (t :: ts) (t' :: ts') stack := by
  obtain ⟨u, u', hlacks, hmem, hstop⟩ := h
  refine ⟨u, u', hlacks, List.mem_cons_of_mem _ hmem, ?_⟩
  rw [addDecorators, hfirst]
  exact hstop

lemma Alike.stopsWithin (h : a.Alike b) (hstops : a.StopsWithin now ts ts' stack) :
    b.StopsWithin now ts ts' stack := by
  obtain ⟨t, t', hlacks, hmem, hstop⟩ := hstops
  refine ⟨t, t', hlacks, hmem, ?_⟩
  rw [h.addDecorators, hstop, h.same Spec.id fun _ _ _ => rfl]

/-- No decorator is made of a reference that lacks the way to make it. A blocking one is not made in any case. -/
lemma stopsWithin_or_eq_of_lacks (stack : Stack E) (h : t.Lacks LayerType.decorator? t') :
    spec.addDecorator now stack t = spec.addDecorator now stack t' ∨
      spec.StopsWithin now (t :: ts) (t' :: ts') stack := by
  cases hblocking : t.isBlocking with
  | true =>
    have hblocking' := (LayerType.isBlocking_congr h.identity).symm.trans hblocking
    refine .inl ?_
    rw [addDecorator, addDecorator, decoratorKind, decoratorKind, if_pos hblocking, if_pos hblocking',
      LayerType.name_congr h.identity]
  | false =>
    have hstop : spec.addDecorator now stack t = .error (.invalidDecorator spec.id t.name) := by
      rw [addDecorator, decoratorKind, h.bare, hblocking]
      rfl
    refine .inr ⟨t, t', h, List.mem_cons_self, ?_⟩
    rw [addDecorators, hstop]

/-- References to the same types are made into the same layers around the same stack, up to the first one
that is lacking. -/
lemma addDecorators_cases (h : ts.map LayerType.identity = ts'.map LayerType.identity) (stack : Stack E) :
    spec.addDecorators now ts stack = spec.addDecorators now ts' stack ∨
      spec.StopsWithin now ts ts' stack ∨ spec.StopsWithin now ts' ts stack := by
  induction ts generalizing ts' stack with
  | nil =>
    obtain rfl := List.map_eq_nil_iff.1 h.symm
    exact .inl rfl
  | cons t ts ih =>
    obtain ⟨t', ts', rfl, hfirst, hrest⟩ := List.map_eq_cons_iff.1 h.symm
    -- after the same first step, the rest leads to the same stack or stops
    have hcommon (hsame : spec.addDecorator now stack t = spec.addDecorator now stack t') :
        spec.addDecorators now (t :: ts) stack = spec.addDecorators now (t' :: ts') stack ∨
          spec.StopsWithin now (t :: ts) (t' :: ts') stack ∨
          spec.StopsWithin now (t' :: ts') (t :: ts) stack := by
      cases hnext : spec.addDecorator now stack t' with
      | error e => exact .inl (by rw [addDecorators, addDecorators, hsame, hnext])
      | ok next =>
        rcases ih hrest.symm next with heq | hstops | hstops
        · refine .inl ?_
          rw [addDecorators, addDecorators, hsame, hnext]
          exact heq
        · exact .inr (.inl (hstops.cons (hsame.trans hnext)))
        · exact .inr (.inr (hstops.cons hnext))
    rcases LayerType.decorator?_eq_or_lacks hfirst.symm with hmake | hlacks | hlacks
    · exact hcommon (addDecorator_congr stack hfirst.symm hmake)
    · rcases stopsWithin_or_eq_of_lacks stack hlacks with hsame | hstops
      · exact hcommon hsame
      · exact .inr (.inl hstops)
    · rcases stopsWithin_or_eq_of_lacks stack hlacks with hsame | hstops
      · exact hcommon hsame.symm
      · exact .inr (.inr hstops)

/-! ## Builds of equal specifications -/

/-- The build fails at a reference that lacks what another specification has in its place. -/
def StopsShort (a b : Spec E) (now : Nat) : Prop :=
  a.storage.Lacks LayerType.storage? b.storage ∧ a.build now = .error (.invalidStorage a.id a.storage.name) ∨
  ∃ t t', t.Lacks LayerType.decorator? t' ∧ (t, t') ∈ a.effectiveDecorators.zip b.effectiveDecorators ∧
    a.build now = .error (.invalidDecorator a.id t.name)

lemma stopsShort_of_storage (h : a.storage.Lacks LayerType.storage? b.storage) : a.StopsShort b now := by
  refine .inl ⟨h, ?_⟩
  rw [build, buildStorage, storageKind, h.bare]

lemma StopsWithin.stopsShort (h : a.StopsWithin now a.effectiveDecorators b.effectiveDecorators stack)
    (hstack : a.buildStorage a.storage = .ok stack) (hperpetual : a.storage.isPerpetual = true) :
    a.StopsShort b now := by
  obtain ⟨t, t', hlacks, hmem, hstop⟩ := h
  refine .inr ⟨t, t', hlacks, hmem, ?_⟩
  simp only [build, hstack, hperpetual, if_true, hstop]

/-- Equal specifications are built into the same stack at the same instant or fail with the same error, unless
one of them stops where it lacks a way of construction that the other one has. -/
theorem build_eq_or_stopsShort (h : (a == b) = true) :
    a.build now = b.build now ∨ a.StopsShort b now ∨ b.StopsShort a now := by
  have halike := Alike.of_beq h
  have hperpetual_eq := LayerType.isPerpetual_congr halike.storage
  rcases LayerType.storage?_eq_or_lacks halike.storage with hstorage | hlacks | hlacks
  · have hsame : b.buildStorage b.storage = a.buildStorage a.storage := by
      rw [halike.buildStorage, buildStorage_congr halike.storage hstorage]
    cases hstack : a.buildStorage a.storage with
    | error e =>
      refine .inl ?_
      rw [build, build, hsame, hstack]
    | ok stack =>
      cases hperpetual : a.storage.isPerpetual with
      | false =>
        refine .inl ?_
        rw [build, build, hsame, hstack, ← hperpetual_eq, hperpetual]
        rfl
      | true =>
        rcases @addDecorators_cases _ a now _ _ halike.effectiveDecorators stack with heq | hstops | hstops
        · refine .inl ?_
          rw [build, build, hsame, hstack, ← hperpetual_eq]
          simp only [halike.addDecorators, halike.applyEnabled, heq]
        · exact .inr (.inl (hstops.stopsShort hstack hperpetual))
        · exact .inr (.inr ((halike.stopsWithin hstops).stopsShort (hsame.trans hstack)
            (hperpetual_eq ▸ hperpetual)))
  · exact .inr (.inl (stopsShort_of_storage hlacks))
  · exact .inr (.inr (stopsShort_of_storage hlacks))

/-- A decorator that evicts is named with its way of construction. -/
def namesMade : Spec .nothing :=
  { Spec.new "users" with decorators := [.decorator .logging, .decorator .lru] }

/-- The same decorator is named without it. -/
def namesBare : Spec .nothing :=
  { Spec.new "users" with decorators := [.decorator .logging, .bare (.decorator .lru)] }

/-- The specifications are equal, and one of them stops at that decorator. -/
theorem build_eq_or_stopsShort_namesBare :
    (namesMade == namesBare) = true ∧ (namesMade.StopsShort namesBare 0 ∨ namesBare.StopsShort namesMade 0) := by
  have hequal : (namesMade == namesBare) = true := by decide
  have hbuilds : namesMade.build 0 ≠ namesBare.build 0 := fun heq =>
    absurd (congrArg Except.isOk heq) (by decide +kernel)
  exact ⟨hequal, (build_eq_or_stopsShort hequal).resolve_left hbuilds⟩

/-- Of two equal specifications, one is built and the other one is not. -/
theorem build_ne_of_beq :
    (namesMade == namesBare) = true ∧ (namesMade.build 0).isOk = true ∧
      namesBare.build 0 =
        .error (.invalidDecorator "users" "cache_assembler::cache::decorators::lru::LruCache") :=
  ⟨by decide, by decide +kernel, rfl⟩

/-- An application with a type that is made from an id as well as around a cache. -/
def withTee : Extension where
  Storage := Unit
  Decorator := Unit
  storage _ :=
    { name := "app::Tee"
      State := Perpetual
      cache := Perpetual.cache
      attributes := .none
      make := Perpetual.make }
  decorator _ :=
    { name := "app::Tee"
      State := Unit
      around := Cache.forward Unit
      attributes := .none
      make := fun _ => .ok () }

/-- That type as the storage, by a reference that carries one of the two ways, or both. -/
def namesTee (makesStorage makesDecorator : Bool) : Spec withTee :=
  { Spec.new "users" with implementation := some ⟨.both () () rfl, makesStorage, makesDecorator⟩ }

-- the two ways count apart
example : (namesTee true false == namesTee false true) = true ∧ ((namesTee true false).build 0).isOk = true ∧
    (namesTee false true).build 0 = .error (.invalidStorage "users" "app::Tee") :=
  ⟨by decide, by decide +kernel, rfl⟩

end Spec

end LayeredCache
