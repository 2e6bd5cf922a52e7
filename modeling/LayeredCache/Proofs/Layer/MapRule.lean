import LayeredCache.Proofs.Layer.Complying
import LayeredCache.Proofs.Layer.Evicting

/-!
# The rule of a bounded map

A cache may answer as a bounded map of the values that were put does. A value that was kept as it is has to be
handed back as it is, and one that was kept as a text as what is read from that text. A layer that evicts complies
with this, with serialization around it or not.
-/

namespace LayeredCache

/-! ## Values that are handed back -/

/-- What is handed back for a value: the value itself, or what is read from its text. -/
def Json.HandedBack : (texts : Bool) → (value v : Json) → Prop
  | false, value, v => v = value
  | true, value, v => Json.read value.print = .ok v

/-- A value whose floating-point numbers are read back is handed back as it is. -/
lemma Json.HandedBack.eq {texts : Bool} {value v : Json} (h : value.HandedBack texts v) (hshallow : value.Shallow)
    (hback : value.FloatsReadBack) : v = value := by
  cases texts with
  | false => exact h
  | true => exact Except.ok.inj (h.symm.trans (Json.read_print ⟨hshallow.1, hshallow.2, hback⟩))

/-- An answer that hands values back instead of the answer of a reference. -/
def Answer.HandsBack (texts : Bool) : Answer Json → Answer Json → Prop
  | .found value, .found v => Option.Rel (Json.HandedBack texts) value v
  | .removed value, .removed v => Option.Rel (Json.HandedBack texts) value v
  | expected, answer => answer = expected

lemma handedBack_self (value : Option Json) : Option.Rel (Json.HandedBack false) value value := by
  cases value with
  | none => exact .none
  | some v => exact .some rfl

/-- What is read from the text of a value that is not too deep. -/
lemma Serialized.exists_decodeFound (id : String) {value : Option Json} (h : ∀ v, value = some v → v.Shallow) :
    ∃ found, decodeFound id (.ok (value.map encode)) = .ok found ∧
      Option.Rel (Json.HandedBack true) value found := by
  cases value with
  | none => exact ⟨none, rfl, .none⟩
  | some v =>
    obtain ⟨w, hread⟩ := (h v rfl).readable
    exact ⟨some w, decodeFound_of_read id hread, .some hread⟩

/-! ## Maps of some values -/

namespace BoundedMap

variable {V : Type} {values : V → Prop} {b : BoundedMap V} {key : String} {policy : Eviction} {capacity : Nat}

/-- Every value in the map is one of these. -/
def All (values : V → Prop) (b : BoundedMap V) : Prop :=
  ∀ slot ∈ b.slots, values slot.value

lemma All.empty : All values empty :=
  fun _ hslot => absurd hslot List.not_mem_nil

lemma All.find? (h : b.All values) {slot : Slot V} (hslot : b.find? key = some slot) : values slot.value :=
  h slot (List.mem_of_find?_eq_some hslot)

lemma All.erase (h : b.All values) (key : String) : (b.erase key).All values :=
  fun slot hslot => h slot (List.mem_filter.1 hslot).1

lemma All.store (h : b.All values) (key : String) {value : V} (hvalue : values value) (rank : Nat) :
    (b.store key value rank).All values :=
  List.forall_mem_cons.2 ⟨hvalue, h.erase key⟩

lemma All.makeRoom (h : b.All values) (capacity : Nat) : (b.makeRoom capacity).All values := by
  unfold BoundedMap.makeRoom
  split
  · split
    · exact h.erase _
    · exact h
  · exact h

lemma All.touch (h : b.All values) (key : String) : (b.touch key).All values := by
  intro slot hslot
  obtain ⟨old, hold, rfl⟩ := List.mem_map.1 hslot
  split <;> exact h old hold

/-- No operation brings in values but those that are put. -/
lemma All.perform (h : b.All values) (operation : Operation V) (hputs : operation.Puts values) :
    ((ideal policy capacity).perform 0 b operation).2.All values := by
  cases operation with
  | put key value =>
    show (b.put policy capacity key value).All values
    unfold BoundedMap.put
    split
    · exact (h.makeRoom capacity).store key hputs b.clock
    · cases policy with
      | leastRecent => exact h.store key hputs b.clock
      | firstIn => exact h.store key hputs _
  | get key =>
    show (b.get policy key).2.All values
    unfold BoundedMap.get
    split
    · exact h
    · cases policy with
      | leastRecent => exact h.touch key
      | firstIn => exact h
  | remove key => exact h.erase key
  | clear => exact All.empty
  | size => exact h

/-- What a lookup finds is in the map. -/
lemma get_fst : (b.get policy key).1 = (b.find? key).map Slot.value := by
  unfold get
  cases b.find? key with
  | none => rfl
  | some slot => cases policy <;> rfl

/-- To remove a key that is not there changes nothing. -/
lemma erase_of_find?_eq_none (h : b.find? key = none) : b.erase key = b := by
  have hothers : b.slots.filter (·.key ≠ key) = b.slots :=
    List.filter_eq_self.2 fun slot hslot => by simpa using List.find?_eq_none.1 h slot hslot
  rw [erase, hothers]

lemma All.found (h : b.All values) {value : V} (hvalue : (b.find? key).map Slot.value = some value) :
    values value := by
  obtain ⟨slot, hslot, rfl⟩ := Option.map_eq_some_iff.1 hvalue
  exact h.find? hslot

/-- The answers of the map are permitted, with values handed back. -/
def rule (texts : Bool) (policy : Eviction) (capacity : Nat) : Rule (BoundedMap Json) := fun b operation answer b' =>
  ((ideal policy capacity).perform 0 b operation).1.HandsBack texts answer ∧
    b' = ((ideal policy capacity).perform 0 b operation).2

end BoundedMap

/-! ## Caches over the storage -/

section

variable {σ : Type} {cache inner : Cache σ} {values : Json → Prop} {related : σ → BoundedMap Json → Prop}
  {policy : Eviction} {capacity : Nat}

open BoundedMap

/-- A cache that follows the map with the values as they are. -/
lemma Matches.complies (h : Matches (fun _ => True) cache (ideal policy capacity) id related)
    (hrelease : ∀ call key s, cache.release call key s = s) :
    cache.Complies values (rule false policy capacity) fun s b => related s b ∧ b.All values := by
  constructor
  · exact fun hs => h.unlocked hs.1
  · rintro s b call key value hvalue ⟨hs, hall⟩
    obtain ⟨s', hput, hs'⟩ := h.put call key value hs trivial
    exact ⟨s', _, hput, ⟨rfl, rfl⟩, hs', hall.perform (.put key value) hvalue⟩
  · rintro s b call key ⟨hs, hall⟩
    obtain ⟨s', hget, hs'⟩ := h.get call key hs trivial
    rw [Option.map_id] at hget
    exact ⟨_, s', _, hget, ⟨handedBack_self _, rfl⟩, hs', hall.perform (.get key) trivial⟩
  · rintro s b call key ⟨hs, hall⟩
    obtain ⟨s', hremove, hs'⟩ := h.remove call key hs trivial
    rw [Option.map_id] at hremove
    exact ⟨_, s', _, hremove, ⟨handedBack_self _, rfl⟩, hs', hall.perform (.remove key) trivial⟩
  · rintro s b call ⟨hs, hall⟩
    obtain ⟨s', hclear, hs'⟩ := h.clear call hs trivial
    exact ⟨s', _, hclear, ⟨rfl, rfl⟩, hs', hall.perform .clear trivial⟩
  · rintro s b call ⟨hs, hall⟩
    obtain ⟨s', hsize, hs'⟩ := h.size call hs trivial
    exact ⟨_, s', _, hsize, ⟨rfl, rfl⟩, hs', hall.perform .size trivial⟩
  · intro s b call key hs
    rw [hrelease]
    exact hs

/-- Serialization around a cache that follows the map with the values as texts. -/
lemma Serialized.complies (h : Matches (fun _ => True) inner (ideal policy capacity) encode related)
    (hrelease : ∀ call key s, inner.release call key s = s) (hshallow : ∀ v, values v → v.Shallow) :
    (around inner).Complies values (rule true policy capacity) fun s b => related s.2 b ∧ b.All values := by
  constructor
  · exact fun hs => h.unlocked hs.1
  · rintro s b call key value hvalue ⟨hs, hall⟩
    obtain ⟨rest, hput, hrest⟩ := h.put call key value hs trivial
    refine ⟨(s.1, rest), _, ?_, ⟨rfl, rfl⟩, hrest, hall.perform (.put key value) hvalue⟩
    simp only [around, Cache.lift, hput]
  · rintro s b call key ⟨hs, hall⟩
    obtain ⟨rest, hget, hrest⟩ := h.get call key hs trivial
    obtain ⟨found, hdecoded, hfound⟩ := exists_decodeFound (inner.id s.2) fun v hv =>
      hshallow v (hall.found (get_fst.symm.trans hv))
    refine ⟨found, (s.1, rest), _, ?_, ⟨hfound, rfl⟩, hrest, hall.perform (.get key) trivial⟩
    rw [← hdecoded]
    simp only [around, hget]
    rfl
  · rintro s b call key ⟨hs, hall⟩
    obtain ⟨rest, hremove, hrest⟩ := h.remove call key hs trivial
    obtain ⟨found, hdecoded, hfound⟩ := exists_decodeFound (inner.id rest) fun v hv => hshallow v (hall.found hv)
    refine ⟨found, (s.1, rest), _, ?_, ⟨hfound, rfl⟩, hrest, hall.perform (.remove key) trivial⟩
    rw [← hdecoded]
    simp only [around, hremove]
    rfl
  · rintro s b call ⟨hs, hall⟩
    obtain ⟨rest, hclear, hrest⟩ := h.clear call hs trivial
    refine ⟨(s.1, rest), _, ?_, ⟨rfl, rfl⟩, hrest, hall.perform .clear trivial⟩
    simp only [around, Cache.forward, Cache.lift, hclear]
  · rintro s b call ⟨hs, hall⟩
    obtain ⟨rest, hsize, hrest⟩ := h.size call hs trivial
    refine ⟨_, (s.1, rest), _, ?_, ⟨rfl, rfl⟩, hrest, hall.perform .size trivial⟩
    simp only [around, Cache.forward, Cache.lift, hsize]
    rfl
  · rintro s b call key ⟨hs, hall⟩
    refine ⟨?_, hall⟩
    show related (inner.release call key s.2) b
    rw [hrelease]
    exact hs

end

end LayeredCache
