import LayeredCache.Proofs.Assembly.Chains
import LayeredCache.Proofs.Layer.Roomy

/-!
# The least capacity bounds what is stored

However layers that evict are stacked with others, there are never more entries in the storage than the
least of the capacities. It is the innermost layer of that capacity that sees to it: the layers beneath it
have room, and those around it change the storage through it only.
-/

namespace LayeredCache

variable {E : Extension} {p : Perpetual} {layers inner outer : List (Layer E)}

/-- A least number comes first and is less than all the others, or it is the least of the others. -/
private lemma min?_cons_cases {n least : Nat} {ns : List Nat} (h : (n :: ns).min? = some least) :
    (n = least ∧ ∀ m ∈ ns, least + 1 ≤ m) ∨ ns.min? = some least := by
  rw [List.min?_cons] at h
  cases hns : ns.min? with
  | none =>
    rw [hns] at h
    rw [List.min?_eq_none_iff.1 hns]
    exact .inl ⟨Option.some.inj h, by simp⟩
  | some other =>
    rw [hns] at h
    have hleast : min n other = least := Option.some.inj h
    by_cases hless : n < other
    · refine .inl ⟨by omega, fun m hm => ?_⟩
      have hother : other ≤ m := (List.min?_eq_some_iff.1 hns).2 m hm
      omega
    · exact .inr (congrArg some (by omega))

namespace Chain

/-- There is no capacity exactly if there is no layer that evicts. -/
lemma capacities_eq_nil {ds : List (DecoratorKind E)} {s : Chain .perpetual ds} :
    capacities ds s = [] ↔ .lru ∉ ds ∧ .fifo ∉ ds := by
  induction ds with
  | nil => simp [capacities]
  | cons d ds ih =>
    cases d with
    | lru => simp [capacities]
    | fifo => simp [capacities]
    | _ => simpa [capacities] using ih

/-- Layers of other kinds have no capacity. -/
lemma capacities_append (h : ∀ layer ∈ outer, layer.kind ≠ .lru ∧ layer.kind ≠ .fifo) :
    capacities _ (ofLayers p (outer ++ inner)) = capacities _ (ofLayers p inner) := by
  induction outer with
  | nil => rfl
  | cons layer outer ih =>
    obtain ⟨⟨hlru, hfifo⟩, hrest⟩ := List.forall_mem_cons.1 h
    rw [← ih hrest]
    obtain ⟨kind, own⟩ := layer
    cases kind with
    | lru => exact absurd rfl hlru
    | fifo => exact absurd rfl hfifo
    | _ => rfl

/-! ## Layers beneath the least capacity -/

/-- In its first state, a chain has room for as many keys as each of its capacities. -/
lemma exists_roomy (room : Nat) (hp : p.keys = []) (hnew : ∀ layer ∈ layers, layer.New)
    (hroom : ∀ n ∈ capacities _ (ofLayers p layers), room ≤ n) :
    ∃ within, (cache .perpetual (layers.map Layer.kind)).Roomy room (bottom _) within ∧
      within (ofLayers p layers) [] := by
  induction layers with
  | nil => exact ⟨_, Perpetual.roomy room, List.subset_nil.2 hp⟩
  | cons layer layers ih =>
    obtain ⟨hlayer, hlayers⟩ := List.forall_mem_cons.1 hnew
    cases hlayer with
    | lru capacity =>
      obtain ⟨hcapacity, hrest⟩ := List.forall_mem_cons.1 hroom
      obtain ⟨within, hroomy, hfirst⟩ := ih hlayers hrest
      exact ⟨_, Lru.roomy hroomy, ⟨hcapacity, .nil, List.Subset.refl _⟩, hfirst⟩
    | fifo capacity =>
      obtain ⟨hcapacity, hrest⟩ := List.forall_mem_cons.1 hroom
      obtain ⟨within, hroomy, hfirst⟩ := ih hlayers hrest
      exact ⟨_, Fifo.roomy hroomy, ⟨hcapacity, .nil, List.Subset.refl _⟩, hfirst⟩
    | scheduled =>
      obtain ⟨within, hroomy, hfirst⟩ := ih hlayers hroom
      exact ⟨_, Scheduled.roomy hroomy, hfirst⟩
    | serialized =>
      obtain ⟨within, hroomy, hfirst⟩ := ih hlayers hroom
      exact ⟨_, Serialized.roomy hroomy, trivial, hfirst⟩
    | logging =>
      obtain ⟨within, hroomy, hfirst⟩ := ih hlayers hroom
      exact ⟨_, Logging.roomy hroomy, trivial, hfirst⟩
    | synchronized =>
      obtain ⟨within, hroomy, hfirst⟩ := ih hlayers hroom
      exact ⟨_, Synchronized.roomy hroomy, rfl, hfirst⟩

/-! ## The layer of the least capacity -/

/-- From its first state on, the chain of some layers stores at most `n` entries. -/
def Bounded (n : Nat) (p : Perpetual) (layers : List (Layer E)) : Prop :=
  Always (fun _ => True) p layers fun s => (bottom _ s).size ≤ n

/-- Layers around a chain change the storage through the chain only. -/
lemma Bounded.append {n : Nat} (h : Bounded n p inner)
    (hbuiltIn : ∀ layer ∈ outer, ∀ added, layer.kind ≠ .added added) : Bounded n p (outer ++ inner) := by
  induction outer with
  | nil => exact h
  | cons layer outer ih =>
    obtain ⟨hlayer, hlayers⟩ := List.forall_mem_cons.1 hbuiltIn
    exact (ih hlayers).cons hlayer fun _ _ => trivial

lemma bounded_of_min? {least : Nat} (hp : p.keys = []) (hnew : ∀ layer ∈ layers, layer.New)
    (hleast : (capacities _ (ofLayers p layers)).min? = some least) : Bounded least p layers := by
  induction layers with
  | nil => cases hleast
  | cons layer layers ih =>
    obtain ⟨hlayer, hlayers⟩ := List.forall_mem_cons.1 hnew
    have hinner (hrest : (capacities _ (ofLayers p layers)).min? = some least) :
        Bounded least p (layer :: layers) :=
      (ih hlayers hrest).cons hlayer.ne_added fun _ _ => trivial
    cases hlayer with
    | lru capacity =>
      rcases min?_cons_cases hleast with ⟨rfl, hroom⟩ | hrest
      · obtain ⟨within, hroomy, hfirst⟩ := exists_roomy _ hp hlayers hroom
        exact ⟨_, Lru.bounding hroomy, ⟨rfl, .clear hfirst⟩, fun s hs => (hs.2.size_le hroomy :)⟩
      · exact hinner hrest
    | fifo capacity =>
      rcases min?_cons_cases hleast with ⟨rfl, hroom⟩ | hrest
      · obtain ⟨within, hroomy, hfirst⟩ := exists_roomy _ hp hlayers hroom
        exact ⟨_, Fifo.bounding hroomy, ⟨rfl, .clear hfirst⟩, fun s hs => (hs.2.size_le hroomy :)⟩
      · exact hinner hrest
    | _ => exact hinner hleast

end Chain

namespace Spec

variable {spec : Spec E} {now : Nat}

/-- A built cache with a layer that evicts never stores more entries than the least of the capacities,
whatever threads do and even if operations fail. -/
theorem size_le_least_capacity {stack : Stack E} (hbuiltIn : spec.BuiltIn)
    (hbuild : spec.build now = .ok stack) (hevicts : .lru ∈ spec.kinds ∨ .fifo ∈ spec.kinds) :
    ∃ (ds : List (DecoratorKind E)) (state : Chain .perpetual ds) (least : Nat),
      stack = ⟨.perpetual, ds, state⟩ ∧ (Chain.capacities ds state).min? = some least ∧
      ∀ session, Session.Reaches (Chain.cache .perpetual ds) (fun _ => True) (.new state now) session →
        (Chain.bottom ds session.state).size ≤ least := by
  obtain ⟨custom, hkinds, hnew, rfl⟩ := hbuiltIn.exists_custom hbuild
  have hevicts' : .lru ∈ ((custom ++ spec.standardLayers now).reverse.map Layer.kind) ∨
      .fifo ∈ ((custom ++ spec.standardLayers now).reverse.map Layer.kind) := by
    simp only [List.map_reverse, List.mem_reverse, List.map_append, List.mem_append, hkinds]
    exact hevicts.imp .inl .inl
  have hcapacities : (Chain.capacities _ (Chain.ofLayers (.empty spec.id)
      (custom ++ spec.standardLayers now).reverse)).min? ≠ none := by
    rw [ne_eq, List.min?_eq_none_iff, Chain.capacities_eq_nil]
    tauto
  obtain ⟨least, hleast⟩ := Option.ne_none_iff_exists'.1 hcapacities
  refine ⟨_, _, least, rfl, hleast, ?_⟩
  rw [List.reverse_append] at hleast ⊢
  rw [Chain.capacities_append fun layer hlayer => ?_] at hleast
  · have hcustom := Chain.bounded_of_min? rfl (fun layer hlayer => hnew layer (List.mem_reverse.1 hlayer))
      hleast
    exact fun session => (hcustom.append fun layer hlayer =>
      ne_added_of_mem_standardLayers (List.mem_reverse.1 hlayer)).reaches
  · rcases of_mem_standardLayers (List.mem_reverse.1 hlayer) with ⟨-, hlru, hfifo⟩ | rfl
    · exact ⟨hlru, hfifo⟩
    · exact ⟨nofun, nofun⟩

/-- Two layers that evict with serialization between them: the inner one keeps three keys and the outer
one two. -/
def keepsFewer : Spec .nothing :=
  { Spec.new "users" with
    decorators := [.decorator .fifo, .decorator .serialized, .decorator .lru]
    properties := .ofList [("size", "3")]
    size := some 2 }

/-- After three puts there are two entries. -/
theorem size_le_least_capacity_keepsFewer :
    ∃ (ds : List (DecoratorKind .nothing)) (state : Chain .perpetual ds) (session : Session _ Outcome),
      keepsFewer.build 0 = .ok ⟨.perpetual, ds, state⟩ ∧ (Chain.capacities ds state).min? = some 2 ∧
      Session.Reaches (Chain.cache .perpetual ds) (fun _ => True) (.new state 0) session ∧
      (Chain.bottom ds session.state).keys = ["c", "b"] ∧
      (Chain.bottom ds session.state).size ≤ 2 := by
  have hbuiltIn : keepsFewer.BuiltIn := ⟨nofun, nofun⟩
  have hbuild : keepsFewer.build 0 = .ok (.ofLayers (.empty "users") [⟨.synchronized, Synchronized.free⟩,
      ⟨.logging, Logging.empty⟩, ⟨.lru, Lru.mk .empty ⟨2, by decide⟩⟩, ⟨.serialized, Serialized.mk⟩,
      ⟨.fifo, Fifo.mk [] ⟨3, by decide⟩⟩]) := rfl
  obtain ⟨ds, state, least, hstack, hleast, hbound⟩ :=
    size_le_least_capacity hbuiltIn hbuild (.inl (by decide))
  have hreaches : Session.Reaches (Chain.cache .perpetual ds) (fun _ => True) (.new state 0) _ :=
    Session.reaches_performAll _ 7 [(1, .put "a" .null), (1, .put "b" .null), (1, .put "c" .null)] _
      (by simp [Operation.Puts])
  cases hstack
  obtain rfl : 2 = least := Option.some.inj (.trans rfl hleast)
  exact ⟨_, _, _, hbuild, hleast, hreaches, by decide +kernel, hbound _ hreaches⟩

end Spec

end LayeredCache
