import LayeredCache.Layer.Logging
import LayeredCache.Layer.Perpetual
import LayeredCache.Layer.Serialized
import LayeredCache.Layer.Synchronized
import LayeredCache.Proofs.Cache.Following
import LayeredCache.Proofs.Json.RoundTrip

/-!
# Layers that keep every entry

The perpetual storage follows a plain map, in whatever form its values come. Serialization, logging and
synchronization follow what the cache beneath them follows.
-/

namespace LayeredCache

variable {V σ α : Type} {calls : Call → Prop}

/-! ## The storage -/

/-- Entries by key. -/
abbrev Entries (V : Type) := List (String × V)

namespace Entries

/-- The entries without a key. -/
def erase (key : String) (m : Entries V) : Entries V :=
  m.filter (·.1 ≠ key)

/-- The entries without some keys. -/
def eraseAll (keys : List String) (m : Entries V) : Entries V :=
  m.filter (·.1 ∉ keys)

/-- A map that keeps every entry until it is removed or all are cleared. -/
def ideal : Ideal V (Entries V) where
  put _ key value m := (key, value) :: erase key m
  get _ key m := (m.lookup key, m)
  remove _ key m := (m.lookup key, erase key m)
  clear _ _ := []
  size _ m := (m.length, m)

/-- The entries with their values in another form. -/
def map {W : Type} (f : V → W) (m : Entries V) : Entries W :=
  List.map (fun entry => (entry.1, f entry.2)) m

lemma lookup_map {W : Type} (f : V → W) (key : String) (m : Entries V) :
    (m.map f).lookup key = (m.lookup key).map f := by
  induction m with
  | nil => rfl
  | cons entry m ih =>
    obtain ⟨other, value⟩ := entry
    show List.lookup key ((other, f value) :: map f m) = _
    rw [List.lookup_cons, List.lookup_cons, ih]
    cases key == other <;> rfl

lemma erase_map {W : Type} (f : V → W) (key : String) (m : Entries V) :
    erase key (m.map f) = (erase key m).map f := by
  rw [erase, map, List.filter_map]
  rfl

lemma eraseAll_nil (m : Entries V) : eraseAll [] m = m :=
  List.filter_eq_self.2 fun _ _ => by simp

lemma eraseAll_cons (key : String) (keys : List String) (m : Entries V) :
    eraseAll (key :: keys) m = eraseAll keys (erase key m) := by
  rw [eraseAll, eraseAll, erase, List.filter_filter]
  refine List.filter_congr fun entry _ => ?_
  simp only [List.mem_cons, not_or, Bool.decide_and, Bool.and_comm]

lemma eraseAll_erase (keys : List String) (key : String) (m : Entries V) :
    eraseAll keys (erase key m) = erase key (eraseAll keys m) := by
  rw [eraseAll, eraseAll, erase, erase, List.filter_filter, List.filter_filter]
  exact List.filter_congr fun _ _ => Bool.and_comm ..

lemma eraseAll_cons_of_notMem {keys : List String} {key : String} (h : key ∉ keys) (value : V)
    (m : Entries V) : eraseAll keys ((key, value) :: m) = (key, value) :: eraseAll keys m :=
  List.filter_cons_of_pos (by simpa using h)

end Entries

/-- The storage follows a plain map, whatever the form of the values. -/
lemma Perpetual.follows (code : V → Json) {p : Perpetual} {m : Entries V}
    (h : p.entries = m.map code) : Perpetual.cache.Follows calls Entries.ideal code p m := by
  refine ⟨fun p m => p.entries = m.map code, ?_, h⟩
  have hget {p : Perpetual} {m : Entries V} (key : String) (h : p.entries = m.map code) :
      p.get? key = (m.lookup key).map code := by
    rw [Perpetual.get?, h, Entries.lookup_map]
  have herase {p : Perpetual} {m : Entries V} (key : String) (h : p.entries = m.map code) :
      (p.erase key).entries = (Entries.erase key m).map code := by
    rw [← Entries.erase_map, ← h]
    rfl
  constructor
  · intro p m h
    rfl
  · intro p m call key value h _
    refine ⟨p.insert key (code value), rfl, ?_⟩
    show (key, code value) :: (p.erase key).entries = _
    rw [herase key h]
    rfl
  · intro p m call key h _
    refine ⟨p, ?_, h⟩
    simp only [Perpetual.cache, hget key h]
    rfl
  · intro p m call key h _
    refine ⟨p.erase key, ?_, herase key h⟩
    simp only [Perpetual.cache, hget key h]
    rfl
  · intro p m call h _
    exact ⟨empty p.id, rfl, rfl⟩
  · intro p m call h _
    refine ⟨p, ?_, h⟩
    simp only [Perpetual.cache, Perpetual.size, h, Entries.map, List.length_map]
    rfl

/-! ## Decorators -/

variable {inner : Cache σ} {ideal : Ideal V α} {code : V → Json} {s : σ} {a : α}

/-- A cache that hands every operation on follows what the inner cache follows, and keeps its own part of
the state as it is. -/
lemma Matches.forward {related : σ → α → Prop} (h : Matches calls inner ideal code related) {τ : Type}
    (kept : τ → Prop) :
    Matches calls (Cache.forward τ inner) ideal code fun s a => kept s.1 ∧ related s.2 a := by
  constructor
  · exact fun hs => h.unlocked hs.2
  · intro s a call key value hs hcall
    obtain ⟨hkept, hs⟩ := hs
    obtain ⟨rest, hput, hrest⟩ := h.put call key value hs hcall
    refine ⟨(s.1, rest), ?_, hkept, hrest⟩
    simp only [Cache.forward, hput]
    rfl
  · intro s a call key hs hcall
    obtain ⟨hkept, hs⟩ := hs
    obtain ⟨rest, hget, hrest⟩ := h.get call key hs hcall
    refine ⟨(s.1, rest), ?_, hkept, hrest⟩
    simp only [Cache.forward, hget]
    rfl
  · intro s a call key hs hcall
    obtain ⟨hkept, hs⟩ := hs
    obtain ⟨rest, hremove, hrest⟩ := h.remove call key hs hcall
    refine ⟨(s.1, rest), ?_, hkept, hrest⟩
    simp only [Cache.forward, hremove]
    rfl
  · intro s a call hs hcall
    obtain ⟨hkept, hs⟩ := hs
    obtain ⟨rest, hclear, hrest⟩ := h.clear call hs hcall
    refine ⟨(s.1, rest), ?_, hkept, hrest⟩
    simp only [Cache.forward, hclear]
    rfl
  · intro s a call hs hcall
    obtain ⟨hkept, hs⟩ := hs
    obtain ⟨rest, hsize, hrest⟩ := h.size call hs hcall
    refine ⟨(s.1, rest), ?_, hkept, hrest⟩
    simp only [Cache.forward, hsize]
    rfl

/-- What is stored for a storable value stands for it. -/
lemma Serialized.decodeFound_encode (id : String) (hcode : ∀ v, (code v).Storable) (found : Option V) :
    decodeFound id (.ok (found.map (encode ∘ code))) = .ok (found.map code) := by
  cases found with
  | none => rfl
  | some v => exact decodeFound_of_read id (Json.read_print (hcode v))

/-- Serialization follows what the inner cache follows with the values in the form of texts. -/
lemma Serialized.follows (hcode : ∀ v, (code v).Storable) (own : Serialized)
    (h : inner.Follows calls ideal (encode ∘ code) s a) :
    (Serialized.around inner).Follows calls ideal code (own, s) a := by
  obtain ⟨related, hmatches, hrelated⟩ := h
  have hforward := hmatches.forward fun _ : Serialized => True
  refine ⟨fun s a => True ∧ related s.2 a, ?_, trivial, hrelated⟩
  constructor
  · exact hforward.unlocked
  · exact hforward.put
  · intro s a call key hs hcall
    obtain ⟨_, hs⟩ := hs
    obtain ⟨rest, hget, hrest⟩ := hmatches.get call key hs hcall
    refine ⟨(s.1, rest), ?_, trivial, hrest⟩
    simp only [Serialized.around, hget, Action.outward, decodeFound_encode _ hcode]
  · intro s a call key hs hcall
    obtain ⟨_, hs⟩ := hs
    obtain ⟨rest, hremove, hrest⟩ := hmatches.remove call key hs hcall
    refine ⟨(s.1, rest), ?_, trivial, hrest⟩
    simp only [Serialized.around, hremove, decodeFound_encode _ hcode]
  · exact hforward.clear
  · exact hforward.size

/-- Logging counts lookups and changes none of them. -/
lemma Logging.follows (own : Logging) (h : inner.Follows calls ideal code s a) :
    (Logging.around inner).Follows calls ideal code (own, s) a := by
  obtain ⟨related, hmatches, hrelated⟩ := h
  have hforward := hmatches.forward fun _ : Logging => True
  refine ⟨fun s a => True ∧ related s.2 a, ?_, trivial, hrelated⟩
  constructor
  · exact hforward.unlocked
  · exact hforward.put
  · intro s a call key hs hcall
    obtain ⟨_, hs⟩ := hs
    obtain ⟨rest, hget, hrest⟩ := hmatches.get call key hs hcall
    refine ⟨(⟨s.1.counts.record (((ideal.get call.now key a).1.map code).isSome)⟩, rest), ?_, trivial, hrest⟩
    simp only [Logging.around, hget, Action.outward, record]
  · exact hforward.remove
  · exact hforward.clear
  · exact hforward.size

/-- Synchronization follows the inner cache as long as nobody else has the lock. -/
lemma Synchronized.follows (h : inner.Follows calls ideal code s a) :
    (Synchronized.around inner).Follows calls ideal code (free, s) a := by
  obtain ⟨related, hmatches, hrelated⟩ := h
  -- the lock is free before and after every operation
  have hforward := hmatches.forward fun own : Synchronized => own = free
  refine ⟨fun s a => s.1 = free ∧ related s.2 a, ?_, rfl, hrelated⟩
  constructor
  · rintro ⟨_, s⟩ a ⟨rfl, hs⟩
    show (!false && inner.unlocked s) = true
    rw [hmatches.unlocked hs]
    rfl
  · exact hforward.put
  · rintro ⟨_, s⟩ a call key ⟨rfl, hs⟩ hcall
    obtain ⟨rest, hget, hrest⟩ := hmatches.get call key hs hcall
    refine ⟨(free, rest), ?_, rfl, hrest⟩
    simp only [Synchronized.around, get, inside, free, hget]
    rfl
  · exact hforward.remove
  · exact hforward.clear
  · exact hforward.size

end LayeredCache
