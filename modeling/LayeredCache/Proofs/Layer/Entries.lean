import LayeredCache.Layer.Model
import LayeredCache.Proofs.Cache.Program
import LayeredCache.Proofs.Layer.Standard
import LayeredCache.Proofs.Layer.Storage
import LayeredCache.Proofs.Layer.Tracking

/-!
# What operations do to the entries

A cache is looked at through a view of its state: the stored entries, the instants of the last clears, and
whether a clear is due. Through it, every operation of a cache of built-in layers does what it says, unless a
clear is due: then nothing is left but what the operation puts. Apart from that, an entry of another key stays
as it is, or is gone for good.
-/

namespace LayeredCache

variable {σ τ : Type}

/-! ## Views of a state -/

/-- How a cache is looked at. `form` is the form in which it stores a value, and `back` the value that it
reads in a stored one, if any. -/
structure View (σ : Type) where
  entry : String → σ → Option Json
  /-- The instants of the last clears of the layers that clear, outermost first. -/
  clears : σ → List Nat
  /-- One of the layers clears the cache at the call. -/
  stale : Call → σ → Bool
  form : Json → Json
  back : Json → Option Json

namespace View

variable (view : View σ)

/-- What a lookup gives for what is stored under its key; it fails if that cannot be read. -/
def answer : Option Json → Option (Option Json)
  | none => some none
  | some stored => (view.back stored).map some

/-- No clear is ever due. -/
def Steady : Prop :=
  ∀ call s, view.stale call s = false

/-- Nothing is stored. -/
def Bare (s : σ) : Prop :=
  ∀ key, view.entry key s = none

/-- Something is stored that cannot be read. -/
def Illegible (s : σ) : Prop :=
  ∃ key stored, view.entry key s = some stored ∧ view.back stored = none

/-- Nothing has changed. -/
structure Same (s s' : σ) : Prop where
  entry (key) : view.entry key s' = view.entry key s
  clears : view.clears s' = view.clears s

/-- The entry of a key is gone, or it is as it was and nothing was cleared since. -/
def Wanes (key : String) (s s' : σ) : Prop :=
  view.entry key s' = none ∨ (view.entry key s' = view.entry key s ∧ view.clears s' = view.clears s)

/-- What a put does. It can only fail when there is something that cannot be read. -/
structure Stored (key : String) (value : Json) (s : σ) (outcome : Except CacheError Unit) (s' : σ) : Prop where
  others (other) : other ≠ key → view.Wanes other s s'
  own : outcome = .ok () → view.entry key s' = none ∨ view.entry key s' = some (view.form value)
  steady : view.Steady → outcome = .ok () → view.entry key s' = some (view.form value)
  failed (e) : outcome = .error e → view.Illegible s

/-- What a lookup does. -/
structure LookedUp (call : Call) (key : String) (s : σ) (outcome : Found) (s' : σ) : Prop where
  cleared : view.stale call s = true → outcome = .ok none ∧ view.Bare s'
  fresh : view.stale call s = false →
    outcome.toOption = view.answer (view.entry key s) ∧ view.Same s s'

/-- What a removal does; that the removed value cannot be read is noticed when it is gone. -/
structure Removed (call : Call) (key : String) (s : σ) (outcome : Found) (s' : σ) : Prop where
  cleared : view.stale call s = true → outcome = .ok none ∧ view.Bare s'
  fresh : view.stale call s = false →
    outcome.toOption = view.answer (view.entry key s) ∧ view.clears s' = view.clears s ∧
      ∀ other, view.entry other s' = if other = key then none else view.entry other s

/-- What a question for the size does. -/
structure Counted (call : Call) (s s' : σ) : Prop where
  cleared : view.stale call s = true → view.Bare s'
  fresh : view.stale call s = false → view.Same s s'

/-- What the removal of several keys does. -/
structure Evicted (keys : List String) (s : σ) (outcome : Except CacheError Unit) (s' : σ) : Prop where
  all (key) : view.Wanes key s s'
  steady (key) : view.Steady → key ∉ keys → view.entry key s' = view.entry key s
  failed (e) : outcome = .error e → ∃ key ∈ keys, ∃ stored, view.entry key s = some stored ∧ view.back stored = none

variable {view} {s s' s'' : σ} {key : String} {call : Call}

lemma Same.refl (s : σ) : view.Same s s :=
  ⟨fun _ => rfl, rfl⟩

lemma Same.wanes (h : view.Same s s') (key : String) : view.Wanes key s s' :=
  .inr ⟨h.entry key, h.clears⟩

lemma Wanes.trans (h : view.Wanes key s s') (h' : view.Wanes key s' s'') : view.Wanes key s s'' := by
  rcases h' with hnone | ⟨hentry, hclears⟩
  · exact .inl hnone
  · rcases h with hnone | ⟨hentry', hclears'⟩
    · exact .inl (hentry.trans hnone)
    · exact .inr ⟨hentry.trans hentry', hclears.trans hclears'⟩

/-- What is there now was there before. -/
lemma Wanes.entry_eq_some {stored : Json} (h : view.Wanes key s s') (hstored : view.entry key s' = some stored) :
    view.entry key s = some stored ∧ view.clears s' = view.clears s := by
  rcases h with hnone | ⟨hentry, hclears⟩
  · rw [hnone] at hstored
    cases hstored
  · exact ⟨hentry.symm.trans hstored, hclears⟩

lemma Illegible.of_wanes (h : view.Illegible s') (hwanes : ∀ key, view.Wanes key s s') : view.Illegible s := by
  obtain ⟨key, stored, hstored, hback⟩ := h
  exact ⟨key, stored, ((hwanes key).entry_eq_some hstored).1, hback⟩

lemma Bare.wanes (h : view.Bare s') (key : String) : view.Wanes key s s' :=
  .inl (h key)

lemma Bare.not_illegible (h : view.Bare s) : ¬ view.Illegible s := by
  rintro ⟨key, stored, hstored, -⟩
  rw [h key] at hstored
  cases hstored

/-- Nothing comes to be stored. -/
lemma Bare.of_wanes (h : view.Bare s) (hwanes : ∀ key, view.Wanes key s s') : view.Bare s' :=
  fun key => (hwanes key).elim id fun hsame => hsame.1.trans (h key)

/-- A lookup fails because of something that cannot be read. -/
lemma exists_of_answer_eq_none {found : Option Json} (h : view.answer found = none) :
    ∃ stored, found = some stored ∧ view.back stored = none := by
  cases found with
  | none => cases h
  | some stored => exact ⟨stored, rfl, Option.map_eq_none_iff.1 h⟩

lemma LookedUp.failed {e : CacheError} (h : view.LookedUp call key s (.error e) s') :
    ∃ stored, view.entry key s = some stored ∧ view.back stored = none := by
  cases hstale : view.stale call s with
  | true => cases (h.cleared hstale).1
  | false => exact exists_of_answer_eq_none (h.fresh hstale).1.symm

lemma LookedUp.wanes {outcome : Found} (h : view.LookedUp call key s outcome s') (other : String) :
    view.Wanes other s s' := by
  cases hstale : view.stale call s with
  | true => exact (h.cleared hstale).2.wanes other
  | false => exact (h.fresh hstale).2.wanes other

lemma Counted.wanes (h : view.Counted call s s') (key : String) : view.Wanes key s s' := by
  cases hstale : view.stale call s with
  | true => exact (h.cleared hstale).wanes key
  | false => exact (h.fresh hstale).wanes key

namespace Removed

variable {outcome : Found}

lemma gone (h : view.Removed call key s outcome s') : view.entry key s' = none := by
  cases hstale : view.stale call s with
  | true => exact (h.cleared hstale).2 key
  | false => exact ((h.fresh hstale).2.2 key).trans (if_pos rfl)

lemma wanes (h : view.Removed call key s outcome s') (other : String) : view.Wanes other s s' := by
  by_cases hother : other = key
  · exact .inl (hother ▸ h.gone)
  · cases hstale : view.stale call s with
    | true => exact (h.cleared hstale).2.wanes other
    | false =>
      obtain ⟨-, hclears, hentry⟩ := h.fresh hstale
      exact .inr ⟨(hentry other).trans (if_neg hother), hclears⟩

/-- Where nothing is stored, there is nothing to remove. -/
lemma of_bare (h : view.Removed call key s outcome s') (hbare : view.Bare s) :
    outcome = .ok none ∧ view.Bare s' := by
  cases hstale : view.stale call s with
  | true => exact h.cleared hstale
  | false =>
    obtain ⟨hanswer, -⟩ := h.fresh hstale
    rw [hbare key] at hanswer
    refine ⟨?_, hbare.of_wanes h.wanes⟩
    cases outcome with
    | error e => cases hanswer
    | ok found => exact congrArg Except.ok (Option.some.inj hanswer)

lemma failed {e : CacheError} (h : view.Removed call key s (.error e) s') :
    ∃ stored, view.entry key s = some stored ∧ view.back stored = none := by
  cases hstale : view.stale call s with
  | true => cases (h.cleared hstale).1
  | false => exact exists_of_answer_eq_none (h.fresh hstale).1.symm

end Removed

end View

/-! ## Caches that do what they say -/

/-- Through the view, every operation of a call among `calls` does what it says. `ok` is what is known of the
state at an instant; it can only be lost to an operation of an earlier instant. -/
structure Cache.Stores (cache : Cache σ) (view : View σ) (calls : Call → Prop) (ok : Nat → σ → Prop) :
    Prop where
  unlocked {n s} : ok n s → cache.unlocked s = true
  later {m n s} : ok m s → m ≤ n → ok n s
  put {s} (call key value) : calls call → ok call.now s → ok call.now (cache.put call key value s).2 ∧
    view.Stored key value s (cache.put call key value s).1 (cache.put call key value s).2
  get {s} (call key) : calls call → ok call.now s → ∃ outcome s', cache.get call key s = .done outcome s' ∧
    ok call.now s' ∧ view.LookedUp call key s outcome s'
  remove {s} (call key) : calls call → ok call.now s → ok call.now (cache.remove call key s).2 ∧
    view.Removed call key s (cache.remove call key s).1 (cache.remove call key s).2
  clear {s} (call) : calls call → ok call.now s →
    ∃ s', cache.clear call s = (.ok (), s') ∧ ok call.now s' ∧ view.Bare s'
  size {s} (call) : calls call → ok call.now s →
    ∃ n s', cache.size call s = (.ok n, s') ∧ ok call.now s' ∧ view.Counted call s s'
  release {s} (call key) : calls call → ok call.now s →
    ok call.now (cache.release call key s) ∧ view.Same s (cache.release call key s)

variable {inner : Cache σ} {view : View σ} {calls : Call → Prop} {ok : Nat → σ → Prop}

/-- Fewer calls are made. -/
lemma Cache.Stores.mono {fewer : Call → Prop} (h : inner.Stores view calls ok)
    (hfewer : ∀ call, fewer call → calls call) : inner.Stores view fewer ok := by
  constructor
  · exact h.unlocked
  · exact h.later
  · exact fun call key value hcall => h.put call key value (hfewer call hcall)
  · exact fun call key hcall => h.get call key (hfewer call hcall)
  · exact fun call key hcall => h.remove call key (hfewer call hcall)
  · exact fun call hcall => h.clear call (hfewer call hcall)
  · exact fun call hcall => h.size call (hfewer call hcall)
  · exact fun call key hcall => h.release call key (hfewer call hcall)

/-- The storage as it is. -/
def View.perpetual : View Perpetual where
  entry key p := p.get? key
  clears _ := []
  stale _ _ := false
  form value := value
  back stored := some stored

lemma Perpetual.stores : cache.Stores .perpetual calls fun _ _ => True := by
  constructor
  · exact fun _ => rfl
  · exact fun _ _ => trivial
  · intro p call key value _ _
    have hown : (p.insert key value).get? key = some value := (get?_insert p key value key).trans (if_pos rfl)
    refine ⟨trivial, fun other hother => .inr ⟨?_, rfl⟩, fun _ => .inr hown, fun _ _ => hown, nofun⟩
    exact (get?_insert p key value other).trans (if_neg hother)
  · intro p call key _ _
    refine ⟨.ok (p.get? key), p, rfl, trivial, nofun, fun _ => ⟨?_, .refl p⟩⟩
    show some (p.get? key) = View.perpetual.answer (p.get? key)
    cases p.get? key <;> rfl
  · intro p call key _ _
    refine ⟨trivial, nofun, fun _ => ⟨?_, rfl, get?_erase p key⟩⟩
    show some (p.get? key) = View.perpetual.answer (p.get? key)
    cases p.get? key <;> rfl
  · exact fun _ _ _ => ⟨_, rfl, trivial, fun _ => rfl⟩
  · exact fun _ _ _ => ⟨_, _, rfl, trivial, nofun, fun _ => .refl _⟩
  · exact fun _ _ _ _ => ⟨trivial, .refl _⟩

/-! ## Layers that hand operations on -/

namespace View

/-- The view of a cache through a layer around it. -/
def under (τ : Type) (view : View σ) : View (τ × σ) where
  entry key s := view.entry key s.2
  clears s := view.clears s.2
  stale call s := view.stale call s.2
  form := view.form
  back := view.back

variable {s s' : τ × σ} {key : String} {call : Call}

lemma Steady.of_under (h : (view.under τ).Steady) (own : τ) : view.Steady :=
  fun call s => h call (own, s)

lemma Same.under (h : view.Same s.2 s'.2) : (view.under τ).Same s s' :=
  ⟨h.entry, h.clears⟩

lemma Stored.under {value : Json} {outcome : Except CacheError Unit} (h : view.Stored key value s.2 outcome s'.2) :
    (view.under τ).Stored key value s outcome s' :=
  ⟨h.others, h.own, fun hsteady => h.steady (hsteady.of_under s.1), h.failed⟩

lemma LookedUp.under {outcome : Found} (h : view.LookedUp call key s.2 outcome s'.2) :
    (view.under τ).LookedUp call key s outcome s' :=
  ⟨h.cleared, fun hfresh => ⟨(h.fresh hfresh).1, (h.fresh hfresh).2.under⟩⟩

lemma Removed.under {outcome : Found} (h : view.Removed call key s.2 outcome s'.2) :
    (view.under τ).Removed call key s outcome s' :=
  ⟨h.cleared, h.fresh⟩

lemma Counted.under (h : view.Counted call s.2 s'.2) : (view.under τ).Counted call s s' :=
  ⟨h.cleared, fun hfresh => (h.fresh hfresh).under⟩

end View

lemma Cache.Stores.forward (h : inner.Stores view calls ok) (kept : τ → Prop) :
    (Cache.forward τ inner).Stores (view.under τ) calls fun n s => kept s.1 ∧ ok n s.2 := by
  constructor
  · exact fun hs => h.unlocked hs.2
  · exact fun hs hle => ⟨hs.1, h.later hs.2 hle⟩
  · intro s call key value hcall hs
    obtain ⟨hrest, hstored⟩ := h.put call key value hcall hs.2
    exact ⟨⟨hs.1, hrest⟩, hstored.under⟩
  · intro s call key hcall hs
    obtain ⟨outcome, rest, hget, hrest, hlooked⟩ := h.get call key hcall hs.2
    refine ⟨outcome, (s.1, rest), ?_, ⟨hs.1, hrest⟩, hlooked.under⟩
    simp only [Cache.forward, hget]
    rfl
  · intro s call key hcall hs
    obtain ⟨hrest, hremoved⟩ := h.remove call key hcall hs.2
    exact ⟨⟨hs.1, hrest⟩, hremoved.under⟩
  · intro s call hcall hs
    obtain ⟨rest, hclear, hrest, hbare⟩ := h.clear call hcall hs.2
    refine ⟨(s.1, rest), ?_, ⟨hs.1, hrest⟩, hbare⟩
    simp only [Cache.forward, hclear]
    rfl
  · intro s call hcall hs
    obtain ⟨n, rest, hsize, hrest, hcounted⟩ := h.size call hcall hs.2
    refine ⟨n, (s.1, rest), ?_, ⟨hs.1, hrest⟩, hcounted.under⟩
    simp only [Cache.forward, hsize]
    rfl
  · intro s call key hcall hs
    obtain ⟨hrest, hsame⟩ := h.release call key hcall hs.2
    exact ⟨⟨hs.1, hrest⟩, hsame.under⟩

lemma Logging.stores (h : inner.Stores view calls ok) :
    (around inner).Stores (view.under Logging) calls fun n s => True ∧ ok n s.2 := by
  have hforward := h.forward fun _ : Logging => True
  constructor
  · exact hforward.unlocked
  · exact hforward.later
  · exact hforward.put
  · intro s call key hcall hs
    obtain ⟨outcome, rest, hget, hrest, hlooked⟩ := h.get call key hcall hs.2
    have hrecord : (record outcome s.1).1 = outcome := by cases outcome <;> rfl
    refine ⟨outcome, ((record outcome s.1).2, rest), ?_, ⟨trivial, hrest⟩, hlooked.under⟩
    simp only [around, hget, Action.outward, hrecord]
  · exact hforward.remove
  · exact hforward.clear
  · exact hforward.size
  · exact hforward.release

lemma Synchronized.stores (h : inner.Stores view calls ok) :
    (around inner).Stores (view.under Synchronized) calls fun n s => s.1 = free ∧ ok n s.2 := by
  have hforward := h.forward fun own : Synchronized => own = free
  constructor
  · rintro n ⟨_, rest⟩ ⟨rfl, hrest⟩
    show (!false && inner.unlocked rest) = true
    rw [h.unlocked hrest]
    rfl
  · exact hforward.later
  · exact hforward.put
  · rintro ⟨_, rest⟩ call key hcall ⟨rfl, hrest⟩
    obtain ⟨outcome, rest', hget, hrest', hlooked⟩ := h.get call key hcall hrest
    refine ⟨outcome, (free, rest'), ?_, ⟨rfl, hrest'⟩, hlooked.under⟩
    simp only [around, get, inside, free, hget]
    rfl
  · exact hforward.remove
  · exact hforward.clear
  · exact hforward.size
  · exact hforward.release

/-- For the calls of a single thread, blocking hands operations on. -/
lemma Blocking.stores (thread : Nat) (h : inner.Stores view calls ok) :
    (around inner).Stores (view.under Blocking) (fun call => calls call ∧ call.thread = thread)
      fun n s => s.1.OnlyHeldBy thread ∧ ok n s.2 := by
  have hforward := h.forward fun own : Blocking => own.OnlyHeldBy thread
  constructor
  · exact hforward.unlocked
  · exact hforward.later
  · rintro s call key value ⟨hcall, rfl⟩ hs
    obtain ⟨hrest, hstored⟩ := h.put call key value hcall hs.2
    exact ⟨⟨hs.1.release key, hrest⟩, hstored.under⟩
  · rintro s call key ⟨hcall, rfl⟩ hs
    obtain ⟨own, hgrant, hown⟩ := hs.1.admit? key
    obtain ⟨outcome, rest, hget, hrest, hlooked⟩ := h.get call key hcall hs.2
    obtain ⟨own', hsettle, hown'⟩ : ∃ own', settle key call.thread outcome own = (outcome, own') ∧
        own'.OnlyHeldBy call.thread := by
      cases outcome with
      | error e => exact ⟨_, rfl, hown.release key⟩
      | ok found => exact hown.settle key found
    refine ⟨outcome, (own', rest), ?_, ⟨hown', hrest⟩, hlooked.under⟩
    simp only [around, get, hgrant, admitted, hget, Action.outward, hsettle]
  · rintro s call key ⟨hcall, rfl⟩ hs
    obtain ⟨hrest, hremoved⟩ := h.remove call key hcall hs.2
    exact ⟨⟨hs.1.release key, hrest⟩, hremoved.under⟩
  · exact fun call hcall hs => hforward.clear call hcall.1 hs
  · exact fun call hcall hs => hforward.size call hcall.1 hs
  · rintro s call key ⟨hcall, rfl⟩ hs
    exact ⟨⟨hs.1.release key, hs.2⟩, fun _ => rfl, rfl⟩

/-! ## Serialization -/

/-- The value that a stored text stands for. -/
def Serialized.parse? : Json → Option Json
  | .string text => (Json.read text).toOption
  | _ => none

/-- The entries are texts of values. -/
def View.serialized (view : View σ) : View (Serialized × σ) :=
  { view.under Serialized with
    form := fun value => view.form (Serialized.encode value)
    back := fun stored => (view.back stored).bind Serialized.parse? }

namespace Serialized

lemma toOption_decode (id : String) (stored : Json) : (decode id stored).toOption = parse? stored := by
  cases stored with
  | string text =>
    simp only [decode, parse?]
    cases Json.read text <;> rfl
  | _ => rfl

lemma toOption_decodeFound (id : String) {outcome : Found} {stored : Option Json}
    (h : outcome.toOption = view.answer stored) :
    (decodeFound id outcome).toOption = view.serialized.answer stored := by
  cases stored with
  | none =>
    cases outcome with
    | error e => cases h
    | ok found =>
      cases h
      rfl
  | some stored =>
    show _ = ((view.back stored).bind parse?).map some
    change outcome.toOption = (view.back stored).map some at h
    cases outcome with
    | error e =>
      rw [Option.map_eq_none_iff.1 h.symm]
      rfl
    | ok found =>
      obtain ⟨text, htext, rfl⟩ := Option.map_eq_some_iff.1 h.symm
      rw [htext, Option.bind_some, ← toOption_decode id]
      show ((decode id text).map some).toOption = _
      cases decode id text <;> rfl

lemma stores (h : inner.Stores view calls ok) :
    (around inner).Stores view.serialized calls fun n s => True ∧ ok n s.2 := by
  have hforward := h.forward fun _ : Serialized => True
  -- a value is illegible if what it was read from is
  have hillegible {s : Serialized × σ} (hs : view.Illegible s.2) : view.serialized.Illegible s := by
    obtain ⟨key, stored, hstored, hback⟩ := hs
    exact ⟨key, stored, hstored, congrArg (Option.bind · parse?) hback⟩
  constructor
  · exact hforward.unlocked
  · exact hforward.later
  · intro s call key value hcall hs
    obtain ⟨hrest, hstored⟩ := h.put call key (encode value) hcall hs.2
    exact ⟨⟨trivial, hrest⟩, hstored.others, hstored.own,
      fun hsteady => hstored.steady fun call rest => hsteady call (s.1, rest),
      fun e he => hillegible (hstored.failed e he)⟩
  · intro s call key hcall hs
    obtain ⟨outcome, rest, hget, hrest, hlooked⟩ := h.get call key hcall hs.2
    refine ⟨decodeFound (inner.id s.2) outcome, (s.1, rest), ?_, ⟨trivial, hrest⟩, fun hstale => ?_,
      fun hfresh => ?_⟩
    · simp only [around, hget]
      rfl
    · obtain ⟨rfl, hbare⟩ := hlooked.cleared hstale
      exact ⟨rfl, hbare⟩
    · obtain ⟨hanswer, hsame⟩ := hlooked.fresh hfresh
      exact ⟨toOption_decodeFound _ hanswer, hsame.entry, hsame.clears⟩
  · intro s call key hcall hs
    obtain ⟨hrest, hremoved⟩ := h.remove call key hcall hs.2
    have hstep : (around inner).remove call key s =
        (decodeFound (inner.id (inner.remove call key s.2).2) (inner.remove call key s.2).1, s.1,
          (inner.remove call key s.2).2) := rfl
    rw [hstep]
    refine ⟨⟨trivial, hrest⟩, fun hstale => ?_, fun hfresh => ?_⟩
    · obtain ⟨hnone, hbare⟩ := hremoved.cleared hstale
      exact ⟨by rw [hnone]; rfl, hbare⟩
    · obtain ⟨hanswer, hothers⟩ := hremoved.fresh hfresh
      exact ⟨toOption_decodeFound _ hanswer, hothers⟩
  · exact hforward.clear
  · intro s call hcall hs
    obtain ⟨n, s', hsize, hs', hcounted⟩ := hforward.size call hcall hs
    exact ⟨n, s', hsize, hs', hcounted.cleared,
      fun hfresh => ⟨(hcounted.fresh hfresh).entry, (hcounted.fresh hfresh).clears⟩⟩
  · intro s call key hcall hs
    obtain ⟨hs', hsame⟩ := hforward.release call key hcall hs
    exact ⟨hs', hsame.entry, hsame.clears⟩

end Serialized

/-! ## Scheduled clearing -/

/-- The clears of the layer come before those beneath it. -/
def View.scheduled (view : View σ) : View (Scheduled × σ) :=
  { view.under Scheduled with
    clears := fun s => s.1.lastClear :: view.clears s.2
    stale := fun call s => s.1.isStale call || view.stale call s.2 }

namespace Scheduled

/-- What is known of the layer at an instant: its interval, and that its last clear is not ahead of the clock
if its calls are `timely`, that is, part of no other operation. -/
def Known (interval : Nat) (timely : Prop) (n : Nat) (own : Scheduled) : Prop :=
  own.interval = interval ∧ (timely → own.lastClear ≤ n)

lemma Known.restart {interval : Nat} {timely : Prop} {n : Nat} {own : Scheduled} {call : Call}
    (h : Known interval timely n own) (hcall : timely → call.later = false) :
    Known interval timely call.now (own.restart call) := by
  refine ⟨h.1, fun htimely => ?_⟩
  rw [Scheduled.restart, instant, hcall htimely]
  exact Nat.le_refl _

/-- Without a clear that is due, the layer hands an operation on. -/
lemma afterClear_of_fresh {α : Type} {step : Call → σ → Except CacheError α × σ} {call : Call} {s : Scheduled × σ}
    (h : s.1.isStale call = false) : afterClear inner step call s = Cache.lift s.1 (step call s.2) := by
  rw [afterClear, h]
  rfl

/-- Otherwise the operation finds the cache cleared. -/
lemma afterClear_of_stale {α : Type} {step : Call → σ → Except CacheError α × σ} {call : Call} {s : Scheduled × σ}
    {rest : σ} (h : s.1.isStale call = true) (hclear : inner.clear call s.2 = (.ok (), rest)) :
    afterClear inner step call s = Cache.lift (s.1.restart call) (step call.next rest) := by
  simp only [afterClear, h, if_true, clear, Cache.lift, hclear]

variable {s : Scheduled × σ} {s' : Scheduled × σ} {key : String} {call : Call}

lemma stale_of_fresh (h : s.1.isStale call = false) : view.scheduled.stale call s = view.stale call s.2 := by
  show (s.1.isStale call || _) = _
  rw [h, Bool.false_or]

lemma stale_of_isStale (h : s.1.isStale call = true) : view.scheduled.stale call s = true := by
  show (s.1.isStale call || _) = true
  rw [h, Bool.true_or]

/-- With its own part unchanged, the layer has cleared nothing. -/
lemma wanes (hown : s'.1 = s.1) (h : view.Wanes key s.2 s'.2) : view.scheduled.Wanes key s s' := by
  refine h.imp_right fun ⟨hentry, hclears⟩ => ⟨hentry, ?_⟩
  show s'.1.lastClear :: view.clears s'.2 = s.1.lastClear :: view.clears s.2
  rw [hown, hclears]

lemma same (hown : s'.1 = s.1) (h : view.Same s.2 s'.2) : view.scheduled.Same s s' := by
  refine ⟨h.entry, ?_⟩
  show s'.1.lastClear :: view.clears s'.2 = s.1.lastClear :: view.clears s.2
  rw [hown, h.clears]

/-- Over any cache, the layer clears it when its interval has passed. -/
lemma stores (interval : Nat) (timely : Prop) (h : inner.Stores view (fun _ => True) ok) :
    (around inner).Stores view.scheduled (fun call => timely → call.later = false)
      fun n s => Known interval timely n s.1 ∧ ok n s.2 := by
  constructor
  · exact fun hs => h.unlocked hs.2
  · exact fun hs hle => ⟨⟨hs.1.1, fun htimely => Nat.le_trans (hs.1.2 htimely) hle⟩, h.later hs.2 hle⟩
  · rintro s call key value hcall ⟨hknown, hs⟩
    have hput : (around inner).put call key value s =
        afterClear inner (fun call => inner.put call key value) call s := rfl
    rw [hput]
    cases hstale : s.1.isStale call with
    | false =>
      obtain ⟨hrest, hstored⟩ := h.put call key value trivial hs
      rw [afterClear_of_fresh hstale]
      exact ⟨⟨⟨hknown.1, hknown.2⟩, hrest⟩, fun other hother => wanes rfl (hstored.others other hother),
        hstored.own,
        fun hsteady => hstored.steady fun call rest => (Bool.or_eq_false_iff.1 (hsteady call (s.1, rest))).2,
        hstored.failed⟩
    | true =>
      obtain ⟨cleared, hclear, hcleared, hbare⟩ := h.clear call trivial hs
      obtain ⟨hrest, hstored⟩ := h.put call.next key value trivial hcleared
      rw [afterClear_of_stale hstale hclear]
      refine ⟨⟨hknown.restart hcall, hrest⟩, fun other hother => .inl ?_, hstored.own, fun hsteady => ?_,
        fun e he => absurd (hstored.failed e he) hbare.not_illegible⟩
      · exact (hstored.others other hother).elim id fun hsame => hsame.1.trans (hbare other)
      · cases (hsteady call s).symm.trans (stale_of_isStale hstale)
  · rintro s call key hcall ⟨hknown, hs⟩
    show ∃ outcome s', get inner call key s = .done outcome s' ∧ _
    rw [get]
    cases hstale : s.1.isStale call with
    | false =>
      obtain ⟨outcome, rest, hget, hrest, hlooked⟩ := h.get call key trivial hs
      refine ⟨outcome, (s.1, rest), ?_, ⟨hknown, hrest⟩, ?_, ?_⟩
      · simp only [hget, Bool.false_eq_true, if_false]
        rfl
      · rw [stale_of_fresh hstale]
        exact hlooked.cleared
      · rw [stale_of_fresh hstale]
        exact fun hfresh => ⟨(hlooked.fresh hfresh).1, same rfl (hlooked.fresh hfresh).2⟩
    | true =>
      obtain ⟨rest, hclear, hrest, hbare⟩ := h.clear call trivial hs
      refine ⟨.ok none, (s.1.restart call, rest), ?_, ⟨hknown.restart hcall, hrest⟩, fun _ => ⟨rfl, hbare⟩, ?_⟩
      · rw [Cache.gated_of_unlocked (h.unlocked hs), hclear, if_pos rfl]
        rfl
      · rw [stale_of_isStale hstale]
        intro hfresh
        cases hfresh
  · rintro s call key hcall ⟨hknown, hs⟩
    have hremove : (around inner).remove call key s =
        afterClear inner (fun call => inner.remove call key) call s := rfl
    rw [hremove]
    cases hstale : s.1.isStale call with
    | false =>
      obtain ⟨hrest, hremoved⟩ := h.remove call key trivial hs
      rw [afterClear_of_fresh hstale]
      refine ⟨⟨hknown, hrest⟩, ?_, ?_⟩
      · rw [stale_of_fresh hstale]
        exact hremoved.cleared
      · rw [stale_of_fresh hstale]
        intro hfresh
        obtain ⟨hanswer, hclears, hentry⟩ := hremoved.fresh hfresh
        exact ⟨hanswer, congrArg (s.1.lastClear :: ·) hclears, hentry⟩
    | true =>
      obtain ⟨cleared, hclear, hcleared, hbare⟩ := h.clear call trivial hs
      obtain ⟨hrest, hremoved⟩ := h.remove call.next key trivial hcleared
      rw [afterClear_of_stale hstale hclear]
      refine ⟨⟨hknown.restart hcall, hrest⟩, fun _ => ?_, ?_⟩
      · exact hremoved.of_bare hbare
      · rw [stale_of_isStale hstale]
        intro hfresh
        cases hfresh
  · rintro s call hcall ⟨hknown, hs⟩
    obtain ⟨rest, hclear, hrest, hbare⟩ := h.clear call trivial hs
    refine ⟨(s.1.restart call, rest), ?_, ⟨hknown.restart hcall, hrest⟩, hbare⟩
    simp only [around, clear, Cache.lift, hclear]
  · rintro s call hcall ⟨hknown, hs⟩
    show ∃ n s', afterClear inner inner.size call s = (.ok n, s') ∧ _
    cases hstale : s.1.isStale call with
    | false =>
      obtain ⟨n, rest, hsize, hrest, hcounted⟩ := h.size call trivial hs
      refine ⟨n, (s.1, rest), ?_, ⟨hknown, hrest⟩, ?_, ?_⟩
      · rw [afterClear_of_fresh hstale, hsize]
        rfl
      · rw [stale_of_fresh hstale]
        exact hcounted.cleared
      · rw [stale_of_fresh hstale]
        exact fun hfresh => same rfl (hcounted.fresh hfresh)
    | true =>
      obtain ⟨cleared, hclear, hcleared, hbare⟩ := h.clear call trivial hs
      obtain ⟨n, rest, hsize, hrest, hcounted⟩ := h.size call.next trivial hcleared
      refine ⟨n, (s.1.restart call, rest), ?_, ⟨hknown.restart hcall, hrest⟩, fun _ => ?_, ?_⟩
      · rw [afterClear_of_stale hstale hclear, hsize]
        rfl
      · exact hbare.of_wanes hcounted.wanes
      · rw [stale_of_isStale hstale]
        intro hfresh
        cases hfresh
  · rintro s call key hcall ⟨hknown, hs⟩
    obtain ⟨hrest, hsame⟩ := h.release call key trivial hs
    exact ⟨⟨hknown, hrest⟩, same rfl hsame⟩

end Scheduled

/-! ## Layers that evict -/

lemma Cache.Stores.removeAll (h : inner.Stores view (fun _ => True) ok) (call : Call) (keys : List String) {s : σ}
    (hs : ok call.now s) : ok call.now (inner.removeAll call keys s).2 ∧
      view.Evicted keys s (inner.removeAll call keys s).1 (inner.removeAll call keys s).2 := by
  induction keys generalizing s call with
  | nil => exact ⟨hs, fun key => (View.Same.refl s).wanes key, fun _ _ _ => rfl, nofun⟩
  | cons first keys ih =>
    obtain ⟨hrest, hremoved⟩ := h.remove call first trivial hs
    have hother {key : String} (hsteady : view.Steady) (hkey : key ≠ first) :
        view.entry key (inner.remove call first s).2 = view.entry key s :=
      ((hremoved.fresh (hsteady call s)).2.2 key).trans (if_neg hkey)
    rw [Cache.removeAll]
    rcases hremove : inner.remove call first s with ⟨outcome, rest⟩
    rw [hremove] at hrest hremoved hother
    cases outcome with
    | error e =>
      obtain ⟨stored, hstored, hback⟩ := hremoved.failed
      exact ⟨hrest, hremoved.wanes, fun key hsteady hkey => hother hsteady fun heq => hkey (heq ▸ List.mem_cons_self),
        fun _ _ => ⟨first, List.mem_cons_self, stored, hstored, hback⟩⟩
    | ok found =>
      obtain ⟨hs', hevicted⟩ := ih call.next hrest
      refine ⟨hs', fun key => (hremoved.wanes key).trans (hevicted.all key), fun key hsteady hkey => ?_,
        fun e he => ?_⟩
      · obtain ⟨hfirst, hkeys⟩ := not_or.1 (mt List.mem_cons.2 hkey)
        exact (hevicted.steady key hsteady hkeys).trans (hother hsteady hfirst)
      · obtain ⟨key, hkey, stored, hstored, hback⟩ := hevicted.failed e he
        exact ⟨key, List.mem_cons_of_mem _ hkey, stored, ((hremoved.wanes key).entry_eq_some hstored).1, hback⟩

/-- The value is stored before other keys make room. -/
lemma Lru.stores (h : inner.Stores view (fun _ => True) ok) :
    (around inner).Stores (view.under Lru) (fun _ => True) fun n s => True ∧ ok n s.2 := by
  have hforward := h.forward fun _ : Lru => True
  constructor
  · exact hforward.unlocked
  · exact hforward.later
  · intro s call key value hcall hs
    obtain ⟨hrest, hstored⟩ := h.put call key value trivial hs.2
    show (_ ∧ ok call.now (put inner call key value s).2.2) ∧
      View.Stored _ key value s (put inner call key value s).1 (put inner call key value s).2
    rw [put]
    rcases hput : inner.put call key value s.2 with ⟨outcome, rest⟩
    rw [hput] at hrest hstored
    cases outcome with
    | error e => exact ⟨⟨trivial, hrest⟩, hstored.under⟩
    | ok u =>
      have hkey : key ∉ ((s.1.order.touch key).keys.drop s.1.capacity.count).reverse :=
        mt List.mem_reverse.1 (s.1.order.notMem_drop_touch key s.1.capacity.positive)
      obtain ⟨hs', hevicted⟩ := h.removeAll call.next _ hrest
      refine ⟨⟨trivial, hs'⟩, fun other hother => (hstored.others other hother).trans (hevicted.all other),
        fun _ => ?_, fun hsteady _ => ?_, fun e he => ?_⟩
      · rcases hevicted.all key with hnone | ⟨hentry, -⟩
        · exact .inl hnone
        · exact (hstored.own rfl).imp hentry.trans hentry.trans
      · exact (hevicted.steady key (hsteady.of_under s.1) hkey).trans (hstored.steady (hsteady.of_under s.1) rfl)
      · obtain ⟨other, hother, stored, hold, hback⟩ := hevicted.failed e he
        have hne : other ≠ key := fun heq => hkey (heq ▸ hother)
        exact ⟨other, stored, ((hstored.others other hne).entry_eq_some hold).1, hback⟩
  · intro s call key hcall hs
    obtain ⟨outcome, rest, hget, hrest, hlooked⟩ := h.get call key trivial hs.2
    refine ⟨outcome, ({ s.1 with order := (s.1.order.refresh key).2 }, rest), ?_, ⟨trivial, hrest⟩, hlooked.under⟩
    simp only [around, get, hget]
    rfl
  · intro s call key hcall hs
    obtain ⟨hrest, hremoved⟩ := h.remove call key trivial hs.2
    exact ⟨⟨trivial, hrest⟩, hremoved.under⟩
  · intro s call hcall hs
    obtain ⟨rest, hclear, hrest, hbare⟩ := h.clear call trivial hs.2
    refine ⟨({ s.1 with order := .empty }, rest), ?_, ⟨trivial, hrest⟩, hbare⟩
    simp only [around, clear, hclear]
  · exact hforward.size
  · exact hforward.release

/-- Other keys make room before the value is stored. -/
lemma Fifo.stores (h : inner.Stores view (fun _ => True) ok) :
    (around inner).Stores (view.under Fifo) (fun _ => True) fun n s => True ∧ ok n s.2 := by
  have hforward := h.forward fun _ : Fifo => True
  constructor
  · exact hforward.unlocked
  · exact hforward.later
  · intro s call key value hcall hs
    obtain ⟨hrest, hevicted⟩ := h.removeAll call ((enqueue s.1.queue key).take
      ((enqueue s.1.queue key).length - s.1.capacity.count)) hs.2
    show (_ ∧ ok call.now (put inner call key value s).2.2) ∧
      View.Stored _ key value s (put inner call key value s).1 (put inner call key value s).2
    simp only [put]
    rcases hremove : inner.removeAll call ((enqueue s.1.queue key).take
      ((enqueue s.1.queue key).length - s.1.capacity.count)) s.2 with ⟨outcome, rest⟩
    rw [hremove] at hrest hevicted
    cases outcome with
    | error e =>
      obtain ⟨other, -, stored, hstored, hback⟩ := hevicted.failed e rfl
      exact ⟨⟨trivial, hrest⟩, fun other _ => hevicted.all other, nofun, nofun,
        fun _ _ => ⟨other, stored, hstored, hback⟩⟩
    | ok u =>
      have hnow : (if (enqueue s.1.queue key).length - s.1.capacity.count = 0 then call
          else call.next).now = call.now := by split <;> rfl
      dsimp only
      generalize (if (enqueue s.1.queue key).length - s.1.capacity.count = 0 then call
        else call.next) = next at hnow ⊢
      obtain ⟨hs', hstored⟩ := h.put next key value trivial (hnow ▸ hrest)
      exact ⟨⟨trivial, hnow ▸ hs'⟩, fun other hother => (hevicted.all other).trans (hstored.others other hother),
        hstored.own, fun hsteady => hstored.steady (hsteady.of_under s.1),
        fun e he => (hstored.failed e he).of_wanes hevicted.all⟩
  · exact hforward.get
  · intro s call key hcall hs
    obtain ⟨hrest, hremoved⟩ := h.remove call key trivial hs.2
    exact ⟨⟨trivial, hrest⟩, hremoved.under⟩
  · intro s call hcall hs
    obtain ⟨rest, hclear, hrest, hbare⟩ := h.clear call trivial hs.2
    refine ⟨({ s.1 with queue := [] }, rest), ?_, ⟨trivial, hrest⟩, hbare⟩
    simp only [around, clear, hclear]
  · exact hforward.size
  · exact hforward.release

end LayeredCache
