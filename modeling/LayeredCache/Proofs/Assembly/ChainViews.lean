import LayeredCache.Proofs.Assembly.BoundedStack
import LayeredCache.Proofs.Assembly.Chains
import LayeredCache.Proofs.Json.RoundTrip
import LayeredCache.Proofs.Layer.Attribution

/-!
# Views of chains

A chain of layers is looked at through all of them. What it hands back for a value is the value itself, or
what is read from its text if a layer serializes, no matter how many of them do (`back_form`).
-/

namespace LayeredCache

variable {E : Extension}

namespace Chain

/-- The view of a chain. -/
def view : (ds : List (DecoratorKind E)) → View (Chain .perpetual ds)
  | [] => .perpetual
  | .scheduled :: ds => (view ds).scheduled
  | .serialized :: ds => (view ds).serialized
  | d :: ds => (view ds).under d.model.State

/-- What a chain reads in the form in which it stores a value. -/
theorem back_form (ds : List (DecoratorKind E)) (value : Json) :
    (view ds).back ((view ds).form value) =
      if .serialized ∈ ds then (Json.read value.print).toOption else some value := by
  induction ds generalizing value with
  | nil => rfl
  | cons d ds ih =>
    by_cases hd : d = .serialized
    · subst hd
      -- a text is handed back as it is, whether it is serialized once more or not
      have htext : (view ds).back ((view ds).form (Serialized.encode value)) = some (Serialized.encode value) := by
        rw [ih, Serialized.encode, Json.read_print (Json.storable_string _)]
        split <;> rfl
      rw [if_pos List.mem_cons_self]
      show ((view ds).back ((view ds).form (Serialized.encode value))).bind Serialized.parse? = _
      rw [htext]
      rfl
    · have hmem : .serialized ∈ d :: ds ↔ .serialized ∈ ds := by simp [Ne.symm hd]
      have hview : (view (d :: ds)).back ((view (d :: ds)).form value) = (view ds).back ((view ds).form value) := by
        cases d with
        | serialized => exact absurd rfl hd
        | _ => rfl
      rw [hview, ih]
      simp only [hmem]

/-- A chain that serializes hands back what is read from the text. -/
lemma read_of_back_form {ds : List (DecoratorKind E)} {value v : Json} (hmem : .serialized ∈ ds)
    (h : (view ds).back ((view ds).form value) = some v) : Json.read value.print = .ok v := by
  rw [back_form, if_pos hmem] at h
  cases hread : Json.read value.print with
  | error reason =>
    rw [hread] at h
    cases h
  | ok read =>
    rw [hread] at h
    exact congrArg Except.ok (Option.some.inj h)

/-- A value whose floating-point numbers are read back is handed back as it is, and so is every value if nothing
serializes. -/
lemma back_form_self {ds : List (DecoratorKind E)} {value : Json} (h : value.Shallow)
    (hplain : .serialized ∉ ds ∨ value.FloatsReadBack) : (view ds).back ((view ds).form value) = some value := by
  rw [back_form]
  split
  · rename_i hmem
    rw [Json.read_print ⟨h.1, h.2, hplain.resolve_left (not_not_intro hmem)⟩]
    rfl
  · rfl

/-- The chain hands back something for every value that is not too deep. -/
lemma exists_back_form (ds : List (DecoratorKind E)) {value : Json} (h : value.Shallow) :
    ∃ v, (view ds).back ((view ds).form value) = some v := by
  rw [back_form]
  split
  · obtain ⟨v, hv⟩ := h.readable
    exact ⟨v, by rw [hv]; rfl⟩
  · exact ⟨value, rfl⟩

/-- Nothing is cleared without a layer that clears. -/
lemma steady_view {ds : List (DecoratorKind E)} (h : .scheduled ∉ ds) : (view ds).Steady := by
  induction ds with
  | nil => exact fun _ _ => rfl
  | cons d ds ih =>
    obtain ⟨hd, hds⟩ := not_or.1 (mt List.mem_cons.2 h)
    cases d with
    | scheduled => exact absurd rfl hd
    | _ => exact fun call s => ih hds call s.2

variable {p : Perpetual} {layers outer inner : List (Layer E)}

lemma entry_ofLayers (key : String) : (view _).entry key (ofLayers p layers) = p.get? key := by
  induction layers with
  | nil => rfl
  | cons layer layers ih =>
    obtain ⟨kind, own⟩ := layer
    cases kind <;> exact ih

/-- A new chain of built-in layers does what its operations say. -/
theorem exists_stores (hnew : ∀ layer ∈ layers, layer.New) :
    ∃ ok : Chain .perpetual (layers.map Layer.kind) → Prop,
      (cache .perpetual (layers.map Layer.kind)).Stores (view _) (fun _ => True) (fun _ s => ok s) ∧
        ok (ofLayers p layers) := by
  induction layers with
  | nil => exact ⟨fun _ => True, Perpetual.stores, trivial⟩
  | cons layer layers ih =>
    obtain ⟨hlayer, hlayers⟩ := List.forall_mem_cons.1 hnew
    obtain ⟨ok, hstores, hfirst⟩ := ih hlayers
    cases hlayer with
    | lru => exact ⟨fun s => True ∧ ok s.2, Lru.stores hstores, trivial, hfirst⟩
    | fifo => exact ⟨fun s => True ∧ ok s.2, Fifo.stores hstores, trivial, hfirst⟩
    | scheduled interval now =>
      -- without a claim on the last clear, nothing depends on the instant
      have hscheduled := Scheduled.stores interval False hstores
      simp only [Scheduled.Known, false_imp_iff, and_true] at hscheduled
      exact ⟨fun s => s.1.interval = interval ∧ ok s.2, hscheduled, rfl, hfirst⟩
    | serialized => exact ⟨fun s => True ∧ ok s.2, Serialized.stores hstores, trivial, hfirst⟩
    | logging => exact ⟨fun s => True ∧ ok s.2, Logging.stores hstores, trivial, hfirst⟩
    | synchronized => exact ⟨fun s => s.1 = Synchronized.free ∧ ok s.2, Synchronized.stores hstores, rfl, hfirst⟩

/-- The outermost layer that clears has the interval, and its last clear was not later than the instant. -/
def Timed (interval n : Nat) (ds : List (DecoratorKind E)) (s : Chain .perpetual ds) : Prop :=
  ∃ lastClear others, (view ds).clears s = lastClear :: others ∧ lastClear ≤ n ∧
    ∀ thread now, (view ds).stale (.at thread now) s = false → now ≤ lastClear + interval

/-- Layers that neither clear nor evict hand every call on to the layer that clears. -/
theorem exists_timed (interval start : Nat) (hinner : ∀ layer ∈ inner, layer.New)
    (houter : ∀ layer ∈ outer, layer.Neutral) :
    ∃ ok, (cache .perpetual ((outer ++ ⟨.scheduled, Scheduled.mk interval start⟩ :: inner).map Layer.kind)).Stores
        (view _) (fun call => call.later = false) ok ∧
      ok start (ofLayers p (outer ++ ⟨.scheduled, Scheduled.mk interval start⟩ :: inner)) ∧
      ∀ n s, ok n s → Timed interval n _ s := by
  induction outer with
  | nil =>
    obtain ⟨ok, hstores, hfirst⟩ := exists_stores (p := p) hinner
    refine ⟨_, (Scheduled.stores interval True hstores).mono fun _ hcall _ => hcall,
      ⟨⟨rfl, fun _ => Nat.le_refl _⟩, hfirst⟩, fun n s hs => ?_⟩
    obtain ⟨⟨hinterval, hlast⟩, -⟩ := hs
    refine ⟨_, _, rfl, hlast trivial, fun thread now hfresh => ?_⟩
    have hown : s.1.isStale (.at thread now) = false := (Bool.or_eq_false_iff.1 hfresh).1
    rw [← hinterval]
    exact Nat.le_of_not_lt (of_decide_eq_false hown)
  | cons layer outer ih =>
    obtain ⟨hlayer, hrest⟩ := List.forall_mem_cons.1 houter
    obtain ⟨ok, hstores, hfirst, htimed⟩ := ih hrest
    cases hlayer with
    | serialized => exact ⟨_, Serialized.stores hstores, ⟨trivial, hfirst⟩, fun n s hs => htimed n s.2 hs.2⟩
    | logging => exact ⟨_, Logging.stores hstores, ⟨trivial, hfirst⟩, fun n s hs => htimed n s.2 hs.2⟩
    | synchronized => exact ⟨_, Synchronized.stores hstores, ⟨rfl, hfirst⟩, fun n s hs => htimed n s.2 hs.2⟩

end Chain

/-! ## Built chains -/

namespace Spec

variable {spec : Spec E} {now : Nat}

/-- The layers of a built cache that blocking can come around, outermost first: the standard ones, and the
custom ones beneath them. -/
def lockedLayers (spec : Spec E) (now : Nat) (custom : List (Layer E)) : List (Layer E) :=
  ⟨.synchronized, Synchronized.free⟩ :: (custom ++ spec.syncedLayers now).reverse

lemma new_of_mem_lockedLayers {custom : List (Layer E)} (hcustom : ∀ layer ∈ custom, layer.New) :
    ∀ layer ∈ spec.lockedLayers now custom, layer.New := by
  refine List.forall_mem_cons.2 ⟨.synchronized, fun layer hlayer => ?_⟩
  rcases List.mem_append.1 (List.mem_reverse.1 hlayer) with hlayer | hlayer
  · exact hcustom layer hlayer
  · exact (of_mem_lockedLayers (List.mem_append_left _ hlayer)).1

/-- The layers of a cache are its locked layers, perhaps with blocking around them. -/
lemma ofLayers_standardLayers (spec : Spec E) (now : Nat) (custom : List (Layer E)) (p : Perpetual) :
    Stack.ofLayers p ((custom ++ spec.standardLayers now).reverse) = .ofLayers p (spec.lockedLayers now custom) ∨
      Stack.ofLayers p ((custom ++ spec.standardLayers now).reverse) =
        .ofLayers p (⟨.blocking, Blocking.empty spec.blockingTimeout⟩ :: spec.lockedLayers now custom) := by
  cases hblocking : spec.blocking with
  | false => exact .inl (by simp [standardLayers, lockedLayers, hblocking])
  | true => exact .inr (by simp [standardLayers, lockedLayers, hblocking])

/-- So it is with a built cache of built-in layers. -/
lemma BuiltIn.exists_locked {stack : Stack E} (h : spec.BuiltIn) (hbuild : spec.build now = .ok stack) :
    ∃ custom : List (Layer E), custom.map Layer.kind = spec.kinds ∧ (∀ layer ∈ custom, layer.New) ∧
      (stack = .ofLayers (.empty spec.id) (spec.lockedLayers now custom) ∨
        stack = .ofLayers (.empty spec.id)
          (⟨.blocking, Blocking.empty spec.blockingTimeout⟩ :: spec.lockedLayers now custom)) := by
  obtain ⟨custom, hkinds, hnew, rfl⟩ := h.exists_custom hbuild
  exact ⟨custom, hkinds, hnew, spec.ofLayers_standardLayers now custom _⟩

end Spec

end LayeredCache
