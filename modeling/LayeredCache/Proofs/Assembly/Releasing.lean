import LayeredCache.Proofs.Assembly.Chains
import LayeredCache.Proofs.Layer.Holds

/-!
# Giving keys up

A release goes from layer to layer down to the outermost one that blocks, where it ends. It takes the hold of the thread
there and nothing else, whatever the layers are: what is stored, the order of use, the statistics and all holds further
in stay. A cache that is built has one blocking layer at most, so there the thread holds the key nowhere afterwards.
-/

namespace LayeredCache

variable {E : Extension}

namespace Chain

/-! ## Views of a chain -/

/-- The layers that block, outermost first. -/
def blockers : (ds : List (DecoratorKind E)) → Chain .perpetual ds → List Blocking
  | [], _ => []
  | .blocking :: ds, s => s.1 :: blockers ds s.2
  | _ :: ds, s => blockers ds s.2

/-- The orders of use of the layers that evict by it, outermost first. -/
def recencies : (ds : List (DecoratorKind E)) → Chain .perpetual ds → List Recency
  | [], _ => []
  | .lru :: ds, s => Lru.order s.1 :: recencies ds s.2
  | _ :: ds, s => recencies ds s.2

/-- The counts of the layers that log, outermost first. -/
def tallies : (ds : List (DecoratorKind E)) → Chain .perpetual ds → List Stats
  | [], _ => []
  | .logging :: ds, s => Logging.counts s.1 :: tallies ds s.2
  | _ :: ds, s => tallies ds s.2

/-- The chain with no key held in any layer, and with all else as it is. -/
def withoutHolds : (ds : List (DecoratorKind E)) → Chain .perpetual ds → Chain .perpetual ds
  | [], p => p
  | .blocking :: ds, s => (.empty (Blocking.timeout s.1), withoutHolds ds s.2)
  | _ :: ds, s => (s.1, withoutHolds ds s.2)

/-- In the blocking layer with `depth` blocking layers around it, a thread holds a key. -/
def HoldsAt {ds : List (DecoratorKind E)} (s : Chain .perpetual ds) (depth : Nat) (key : String) (thread : Nat) :
    Prop :=
  ∃ b, (blockers ds s)[depth]? = some b ∧ b.holder? key = some thread

variable {ds : List (DecoratorKind E)}

lemma length_blockers (s : Chain .perpetual ds) : (blockers ds s).length = ds.count .blocking := by
  induction ds with
  | nil => rfl
  | cons d ds ih =>
    have hrest := ih s.2
    cases d with
    | blocking => exact (congrArg (· + 1) hrest).trans List.count_cons_self.symm
    | _ => exact hrest.trans (List.count_cons_of_ne (by simp)).symm

lemma bottom_withoutHolds (s : Chain .perpetual ds) : bottom ds (withoutHolds ds s) = bottom ds s := by
  induction ds with
  | nil => rfl
  | cons d ds ih => cases d <;> exact ih s.2

lemma recencies_withoutHolds (s : Chain .perpetual ds) : recencies ds (withoutHolds ds s) = recencies ds s := by
  induction ds with
  | nil => rfl
  | cons d ds ih =>
    cases d with
    | lru => exact congrArg (Lru.order s.1 :: ·) (ih s.2)
    | _ => exact ih s.2

lemma tallies_withoutHolds (s : Chain .perpetual ds) : tallies ds (withoutHolds ds s) = tallies ds s := by
  induction ds with
  | nil => rfl
  | cons d ds ih =>
    cases d with
    | logging => exact congrArg (Logging.counts s.1 :: ·) (ih s.2)
    | _ => exact ih s.2

/-- The statistics of a chain are the counts of the outermost layer that logs. -/
lemma stats_eq_head? (hbuiltIn : ∀ added, .added added ∉ ds) (s : Chain .perpetual ds) :
    (cache .perpetual ds).stats s = (tallies ds s).head? := by
  induction ds with
  | nil => rfl
  | cons d ds ih =>
    have hrest := ih (fun added hmem => hbuiltIn added (List.mem_cons_of_mem _ hmem)) s.2
    cases d with
    | logging => rfl
    | added added => exact absurd List.mem_cons_self (hbuiltIn added)
    | _ => exact hrest

/-! ## A release -/

/-- Only a layer that blocks does not hand the release on. -/
lemma blockers_release (hbuiltIn : ∀ added, .added added ∉ ds) (call : Call) (key : String)
    (s : Chain .perpetual ds) :
    blockers ds ((cache .perpetual ds).release call key s) =
      (blockers ds s).modifyHead (·.release key call.thread) := by
  induction ds with
  | nil => rfl
  | cons d ds ih =>
    have hrest := ih (fun added hmem => hbuiltIn added (List.mem_cons_of_mem _ hmem)) s.2
    cases d with
    | blocking => rfl
    | added added => exact absurd List.mem_cons_self (hbuiltIn added)
    | _ => exact hrest

lemma withoutHolds_release (hbuiltIn : ∀ added, .added added ∉ ds) (call : Call) (key : String)
    (s : Chain .perpetual ds) :
    withoutHolds ds ((cache .perpetual ds).release call key s) = withoutHolds ds s := by
  induction ds with
  | nil => rfl
  | cons d ds ih =>
    have hrest := ih (fun added hmem => hbuiltIn added (List.mem_cons_of_mem _ hmem)) s.2
    cases d with
    | blocking =>
      have htimeout (b : Blocking) : (b.release key call.thread).timeout = b.timeout := by
        unfold Blocking.release
        split <;> rfl
      exact congrArg (fun timeout => (Blocking.empty timeout, withoutHolds ds s.2)) (htimeout s.1)
    | added added => exact absurd List.mem_cons_self (hbuiltIn added)
    | _ => exact congrArg (Prod.mk s.1) hrest

/-- The thread gives the key up in the outermost layer that blocks; all other holds stay. -/
lemma holdsAt_release (hbuiltIn : ∀ added, .added added ∉ ds) (call : Call) (key : String)
    (s : Chain .perpetual ds) (depth : Nat) (other : String) (holder : Nat) :
    HoldsAt ((cache .perpetual ds).release call key s) depth other holder ↔
      HoldsAt s depth other holder ∧ ¬(depth = 0 ∧ call.thread = holder ∧ key = other) := by
  rw [HoldsAt, HoldsAt, blockers_release hbuiltIn]
  cases blockers ds s with
  | nil => simp
  | cons b rest =>
    cases depth with
    | zero => simpa using Blocking.holder?_release_eq_some
    | succ depth => simp

end Chain

/-! ## Caches that are built -/

namespace Spec

variable {spec : Spec E} {now : Nat} {ds : List (DecoratorKind E)} {first : Chain .perpetual ds}

lemma count_blocking_of_new {layers : List (Layer E)} (h : ∀ layer ∈ layers, layer.New) :
    (layers.map Layer.kind).count .blocking = 0 := by
  refine List.count_eq_zero.2 fun hmem => ?_
  obtain ⟨layer, hlayer, hkind⟩ := List.mem_map.1 hmem
  cases h layer hlayer <;> cases hkind

/-- Custom decorators do not block, and the standard layers block once at most. -/
lemma BuiltIn.count_blocking (h : spec.BuiltIn) (hbuild : spec.build now = .ok ⟨.perpetual, ds, first⟩) :
    (∀ added, .added added ∉ ds) ∧ ds.count .blocking ≤ 1 := by
  obtain ⟨custom, -, hcustom, hstack⟩ := h.exists_custom hbuild
  obtain rfl : ds = (custom ++ spec.standardLayers now).reverse.map Layer.kind := (Stack.mk.inj hstack).2.1
  have hlocked := count_blocking_of_new fun layer (hlayer : layer ∈ spec.syncedLayers now ++ _) =>
    (of_mem_lockedLayers hlayer).1
  constructor
  · intro added hmem
    obtain ⟨layer, hlayer, hkind⟩ := List.mem_map.1 hmem
    rcases List.mem_append.1 (List.mem_reverse.1 hlayer) with hlayer | hlayer
    · exact (hcustom layer hlayer).ne_added added hkind
    · exact ne_added_of_mem_standardLayers hlayer added hkind
  · rw [List.map_reverse, List.count_reverse, List.map_append, List.count_append, count_blocking_of_new hcustom,
      standardLayers, List.map_append, List.count_append, hlocked, Nat.zero_add, Nat.zero_add]
    split
    · exact List.count_le_length
    · exact Nat.zero_le _

end Spec

namespace Chain

/-- When a thread gives a key up, its hold on it in the outermost layer that blocks ends, and every other hold stays, of
that layer and of those further in; nothing but holds changes, so neither what is stored nor an order of use nor any
count. With one blocking layer at most the thread does not hold the key anywhere then, and that many a built cache
has. -/
theorem release_ends_outermost_hold :
    (∀ ds : List (DecoratorKind E), (∀ added, .added added ∉ ds) → ∀ (call : Call) (key : String)
      (s : Chain .perpetual ds),
      let s' := (cache .perpetual ds).release call key s
      (∀ depth other holder, HoldsAt s' depth other holder ↔
        HoldsAt s depth other holder ∧ ¬(depth = 0 ∧ call.thread = holder ∧ key = other)) ∧
      (ds.count .blocking ≤ 1 → ∀ depth, ¬HoldsAt s' depth key call.thread) ∧
      withoutHolds ds s' = withoutHolds ds s ∧ bottom ds s' = bottom ds s ∧ recencies ds s' = recencies ds s ∧
      tallies ds s' = tallies ds s ∧ (cache .perpetual ds).stats s' = (cache .perpetual ds).stats s) ∧
    ∀ (spec : Spec E) now ds first, spec.BuiltIn → spec.build now = .ok ⟨.perpetual, ds, first⟩ →
      (∀ added, .added added ∉ ds) ∧ ds.count .blocking ≤ 1 := by
  refine ⟨fun ds hbuiltIn call key s => ?_, fun spec now ds first h hbuild => h.count_blocking hbuild⟩
  intro s'
  have hholds := holdsAt_release hbuiltIn call key s
  have hframe : withoutHolds ds s' = withoutHolds ds s := withoutHolds_release hbuiltIn call key s
  have htallies : tallies ds s' = tallies ds s := by
    rw [← tallies_withoutHolds, hframe, tallies_withoutHolds]
  refine ⟨hholds, fun hcount depth hheld => ?_, hframe, ?_, ?_, htallies, ?_⟩
  · obtain ⟨⟨b, hb, -⟩, hnot⟩ := (hholds depth key call.thread).1 hheld
    -- there is no blocking layer further in
    have hdepth : depth < ds.count .blocking := length_blockers s ▸ (List.getElem?_eq_some_iff.1 hb).1
    exact hnot ⟨by omega, rfl, rfl⟩
  · rw [← bottom_withoutHolds, hframe, bottom_withoutHolds]
  · rw [← recencies_withoutHolds, hframe, recencies_withoutHolds]
  · rw [stats_eq_head? hbuiltIn, stats_eq_head? hbuiltIn, htallies]

/-- The chain of a cache that blocks, as it is built. -/
def blocks : List (Layer .nothing) :=
  [⟨.blocking, .empty (some (50 * nanosPerMilli))⟩, ⟨.synchronized, .free⟩, ⟨.logging, .empty⟩, ⟨.lru, .empty⟩]

/-- The specification of that cache. -/
def blocksSpec : Spec .nothing :=
  { Spec.new "users" with
    blocking := true
    blockingTimeout := some (50 * nanosPerMilli) }

/-- A thread that has looked a key up in vain gives it up. -/
theorem release_ends_outermost_hold_blocks :
    let s := ((cache .perpetual (blocks.map Layer.kind)).get (.at 1 0) "k" (ofLayers (.empty "users") blocks)).state
    HoldsAt s 0 "k" 1 ∧ ∀ depth, ¬HoldsAt ((cache .perpetual _).release (.at 1 1) "k" s) depth "k" 1 := by
  intro s
  have hspec : blocksSpec.BuiltIn := ⟨nofun, nofun⟩
  have hbuild : blocksSpec.build 0 = .ok ⟨.perpetual, blocks.map Layer.kind, ofLayers (.empty "users") blocks⟩ := rfl
  obtain ⟨hbuiltIn, hcount⟩ := release_ends_outermost_hold.2 blocksSpec 0 _ _ hspec hbuild
  exact ⟨⟨_, rfl, rfl⟩, (release_ends_outermost_hold.1 _ hbuiltIn (.at 1 1) "k" s).2.1 hcount⟩

/-- Two layers that block, one directly around the other. -/
def blocksTwice : List (Layer .nothing) :=
  [⟨.blocking, .empty none⟩, ⟨.blocking, .empty (some (50 * nanosPerMilli))⟩]

/-- Of two holds that one lookup has left, a release ends the outer one only. -/
theorem release_keeps_inner_hold : ∃ session,
    Session.Reaches (cache .perpetual (blocksTwice.map Layer.kind)) (fun _ => True)
      (.new (ofLayers (.empty "users") blocksTwice) 0) session ∧
    HoldsAt ((cache .perpetual (blocksTwice.map Layer.kind)).release (.at 1 2000) "k" session.state) 1 "k" 1 :=
  ⟨_, .tail (.tail .refl (.pass _ 1000)) (.perform _ 1 (.get "k") trivial), _, rfl, rfl⟩

end Chain

end LayeredCache
