import LayeredCache.Proofs.Layer.Transparent
import Mathlib.Data.List.MinMax
import Mathlib.Data.List.Nodup

/-!
# Bounded maps

The reference for a cache that evicts: a map of at most a given number of keys, of which each has a rank.
A new key that finds the map full takes the place of the key with the least rank. What counts as a reason
to give a key a new rank tells eviction by use from eviction in order of insertion.
-/

namespace LayeredCache

/-- Which key makes room: the one whose last put, or last lookup that found it, is longest ago, or the one
inserted first. -/
inductive Eviction where
  | leastRecent
  | firstIn
  deriving DecidableEq

/-- A value under a key, with the tick of the event that fixed the key's rank. -/
structure Slot (V : Type) where
  key : String
  value : V
  rank : Nat

/-- The slots of a map, and the next tick. -/
structure BoundedMap (V : Type) where
  slots : List (Slot V)
  clock : Nat

namespace BoundedMap

variable {V : Type}

def empty : BoundedMap V := ⟨[], 0⟩

def find? (b : BoundedMap V) (key : String) : Option (Slot V) :=
  b.slots.find? (·.key = key)

def erase (b : BoundedMap V) (key : String) : BoundedMap V :=
  { b with slots := b.slots.filter (·.key ≠ key) }

/-- The slot with the least rank. -/
def oldest? (b : BoundedMap V) : Option (Slot V) :=
  b.slots.argmin Slot.rank

/-- A full map without the key of its oldest slot. -/
def makeRoom (b : BoundedMap V) (capacity : Nat) : BoundedMap V :=
  if b.slots.length = capacity then
    match b.oldest? with
    | some slot => b.erase slot.key
    | none => b
  else b

/-- Puts a slot into the map; the clock goes on. -/
def store (b : BoundedMap V) (key : String) (value : V) (rank : Nat) : BoundedMap V :=
  ⟨⟨key, value, rank⟩ :: (b.erase key).slots, b.clock + 1⟩

/-- A new key takes its rank from the clock. So does a key that is there under eviction by use; in order
of insertion it keeps the rank it has. -/
def put (policy : Eviction) (capacity : Nat) (key : String) (value : V) (b : BoundedMap V) :
    BoundedMap V :=
  match b.find? key with
  | none => (b.makeRoom capacity).store key value b.clock
  | some slot =>
    match policy with
    | .leastRecent => b.store key value b.clock
    | .firstIn => b.store key value slot.rank

/-- A key is used now. -/
def touch (b : BoundedMap V) (key : String) : BoundedMap V :=
  ⟨b.slots.map fun slot => if slot.key = key then { slot with rank := b.clock } else slot, b.clock + 1⟩

/-- A lookup changes the map only if it finds the key and the policy looks at uses. -/
def get (policy : Eviction) (key : String) (b : BoundedMap V) : Option V × BoundedMap V :=
  match b.find? key with
  | none => (none, b)
  | some slot =>
    match policy with
    | .leastRecent => (some slot.value, b.touch key)
    | .firstIn => (some slot.value, b)

/-- The reference with a policy and a capacity. -/
def ideal (policy : Eviction) (capacity : Nat) : Ideal V (BoundedMap V) where
  put _ key value b := b.put policy capacity key value
  get _ key b := b.get policy key
  remove _ key b := ((b.find? key).map Slot.value, b.erase key)
  clear _ _ := empty
  size _ b := (b.slots.length, b)

/-- Nothing is found in a map that was just emptied, which does not change it. -/
lemma get_clear (policy : Eviction) (capacity now : Nat) (key : String) (b : BoundedMap V) :
    (ideal policy capacity).get now key ((ideal policy capacity).clear now b) =
      (none, (ideal policy capacity).clear now b) :=
  rfl

/-! ## Slots in the order of their ranks -/

/-- The slots of the map in ascending order of ranks, which are distinct as the keys are. -/
structure Ordered (b : BoundedMap V) (order : List (Slot V)) : Prop where
  perm : order.Perm b.slots
  ascending : order.Pairwise (·.rank < ·.rank)
  past : ∀ slot ∈ order, slot.rank < b.clock
  distinct : (order.map Slot.key).Nodup

/-- No slot is taken away under a key that is not there. -/
lemma filter_of_notMem {slots : List (Slot V)} {key : String} (h : key ∉ slots.map Slot.key) :
    slots.filter (·.key ≠ key) = slots := by
  refine List.filter_eq_self.2 fun slot hslot => ?_
  have hne : slot.key ≠ key := fun heq => h (List.mem_map.2 ⟨slot, hslot, heq⟩)
  simpa using hne

namespace Ordered

variable {b : BoundedMap V} {order : List (Slot V)} {key : String}

lemma empty : Ordered (V := V) .empty [] :=
  ⟨.refl _, .nil, by simp, .nil⟩

lemma length (h : b.Ordered order) : b.slots.length = order.length :=
  h.perm.length_eq.symm

/-- The first slot in the order is the one with the least rank. -/
lemma oldest {first : Slot V} (h : b.Ordered (first :: order)) : b.oldest? = some first := by
  have hfirst : first ∈ b.slots := h.perm.mem_iff.1 (List.mem_cons_self ..)
  cases hleast : b.oldest? with
  | none =>
    rw [oldest?, List.argmin_eq_none] at hleast
    rw [hleast] at hfirst
    cases hfirst
  | some slot =>
    have hslot : slot ∈ first :: order := h.perm.mem_iff.2 (List.argmin_mem hleast)
    rcases List.mem_cons.1 hslot with rfl | hslot
    · rfl
    · -- a later slot has a greater rank, which is not the least
      have hlt : first.rank < slot.rank := (List.pairwise_cons.1 h.ascending).1 slot hslot
      have hle : slot.rank ≤ first.rank := List.le_of_mem_argmin hfirst hleast
      omega

/-- A key that is there has its place in the order. -/
lemma split {slot : Slot V} (h : b.Ordered order) (hslot : slot ∈ order) :
    ∃ before after, order = before ++ slot :: after ∧
      order.filter (·.key ≠ slot.key) = before ++ after := by
  obtain ⟨before, after, rfl⟩ := List.append_of_mem hslot
  refine ⟨before, after, rfl, ?_⟩
  have hothers : slot.key ∉ (before ++ after).map Slot.key := by
    have hdistinct := h.distinct
    rw [List.map_append, List.map_cons, List.nodup_middle, ← List.map_append] at hdistinct
    exact (List.nodup_cons.1 hdistinct).1
  rw [List.filter_append, List.filter_cons_of_neg (by simp), ← List.filter_append]
  exact filter_of_notMem hothers

lemma erase (h : b.Ordered order) (key : String) :
    (b.erase key).Ordered (order.filter (·.key ≠ key)) := by
  have hsublist := List.filter_sublist (l := order) (p := (·.key ≠ key))
  exact ⟨h.perm.filter _, h.ascending.sublist hsublist, fun slot hslot => h.past slot (hsublist.mem hslot),
    h.distinct.sublist (hsublist.map _)⟩

/-- A slot with a rank from the clock comes last. -/
lemma store (h : b.Ordered order) (key : String) (value : V) :
    (b.store key value b.clock).Ordered (order.filter (·.key ≠ key) ++ [⟨key, value, b.clock⟩]) := by
  have herase := h.erase key
  refine ⟨?_, ?_, ?_, ?_⟩
  · exact (List.perm_append_singleton ..).trans (herase.perm.cons _)
  · refine List.pairwise_append.2 ⟨herase.ascending, List.pairwise_singleton .., ?_⟩
    intro slot hslot new hnew
    rw [List.mem_singleton.1 hnew]
    exact herase.past slot hslot
  · intro slot hslot
    rcases List.mem_append.1 hslot with hslot | hslot
    · exact Nat.lt_succ_of_lt (herase.past slot hslot)
    · rw [List.mem_singleton.1 hslot]
      exact Nat.lt_succ_self _
  · rw [List.map_append]
    refine List.nodup_append.2 ⟨herase.distinct, by simp, ?_⟩
    intro other hother new hnew
    obtain ⟨slot, hslot, rfl⟩ := List.mem_map.1 hother
    rw [List.mem_singleton.1 hnew]
    simpa using (List.mem_filter.1 hslot).2

/-- A slot that keeps its rank keeps its place. -/
lemma replace {slot : Slot V} (h : b.Ordered order) (hslot : slot ∈ order) (value : V) :
    ∃ order', (b.store slot.key value slot.rank).Ordered order' ∧
      order'.map Slot.key = order.map Slot.key := by
  obtain ⟨before, after, horder, hfilter⟩ := h.split hslot
  refine ⟨before ++ ⟨slot.key, value, slot.rank⟩ :: after, ?_, by rw [horder]; simp⟩
  have hperm : (before ++ after).Perm (b.erase slot.key).slots := by
    rw [← hfilter]
    exact (h.erase slot.key).perm
  have hascending := h.ascending
  have hpast := h.past
  have hdistinct := h.distinct
  rw [horder] at hascending hpast hdistinct
  refine ⟨List.perm_middle.trans (hperm.cons _), ?_, ?_, ?_⟩
  · -- the order depends on the ranks alone
    have hranks : (before ++ ⟨slot.key, value, slot.rank⟩ :: after).map Slot.rank =
        (before ++ slot :: after).map Slot.rank := by simp
    rw [← List.pairwise_map (f := Slot.rank) (R := (· < ·))] at hascending ⊢
    rw [hranks]
    exact hascending
  · intro other hother
    show other.rank < b.clock + 1
    have hslotPast := hpast slot (by simp)
    rcases List.mem_append.1 hother with hother | hother
    · exact Nat.lt_succ_of_lt (hpast other (List.mem_append_left _ hother))
    · rcases List.mem_cons.1 hother with rfl | hother
      · exact Nat.lt_succ_of_lt hslotPast
      · exact Nat.lt_succ_of_lt (hpast other (List.mem_append_right _ (List.mem_cons_of_mem _ hother)))
  · simpa using hdistinct

/-- A used slot comes last. -/
lemma touch {slot : Slot V} (h : b.Ordered order) (hslot : slot ∈ order) :
    (b.touch slot.key).Ordered
      (order.filter (·.key ≠ slot.key) ++ [{ slot with rank := b.clock }]) := by
  have hstore := h.store slot.key slot.value
  -- the slots are the same up to their order as if the value were stored anew
  refine ⟨?_, hstore.ascending, hstore.past, hstore.distinct⟩
  obtain ⟨before, after, horder, hfilter⟩ := h.split hslot
  let update (other : Slot V) := if other.key = slot.key then { other with rank := b.clock } else other
  -- no other slot has the key
  have hothers : (before ++ after).map update = before ++ after := by
    refine (List.map_congr_left fun other hother => ?_).trans (List.map_id _)
    rw [← hfilter] at hother
    exact if_neg (by simpa using (List.mem_filter.1 hother).2)
  have hperm : (order.map update).Perm (b.slots.map update) := h.perm.map update
  refine List.Perm.trans ?_ hperm
  have hmap : order.map update = before.map update ++ update slot :: after.map update := by
    rw [horder, List.map_append, List.map_cons]
  rw [hfilter, hmap, ← hothers, List.map_append]
  have hslotUpdate : update slot = { slot with rank := b.clock } := if_pos rfl
  rw [hslotUpdate]
  exact (List.perm_append_singleton ..).trans List.perm_middle.symm

lemma find?_of_mem {slot : Slot V} (h : b.Ordered order) (hslot : slot ∈ order) :
    b.find? slot.key = some slot := by
  have hmem : slot ∈ b.slots := h.perm.mem_iff.1 hslot
  cases hfound : b.find? slot.key with
  | none =>
    have hnone := List.find?_eq_none.1 hfound slot hmem
    simp at hnone
  | some other =>
    have hother : other ∈ order := h.perm.mem_iff.2 (List.mem_of_find?_eq_some hfound)
    have hkey : other.key = slot.key := by simpa using List.find?_some hfound
    -- keys are distinct
    rw [List.inj_on_of_nodup_map h.distinct hother hslot hkey]

lemma find?_of_notMem (h : b.Ordered order) (hkey : key ∉ order.map Slot.key) : b.find? key = none := by
  refine List.find?_eq_none.2 fun slot hslot => ?_
  have hne : slot.key ≠ key := by
    rintro rfl
    exact hkey (List.mem_map.2 ⟨slot, h.perm.mem_iff.2 hslot, rfl⟩)
  simpa using hne

end Ordered

/-! ## The plain map of a bounded map -/

/-- The entries of the slots. -/
def entries (b : BoundedMap V) : Entries V :=
  b.slots.map fun slot => (slot.key, slot.value)

variable {b : BoundedMap V} {order : List (Slot V)} {key : String}

lemma lookup_entries (b : BoundedMap V) (key : String) :
    b.entries.lookup key = (b.find? key).map Slot.value := by
  rw [entries, find?]
  induction b.slots with
  | nil => rfl
  | cons slot slots ih =>
    rw [List.map_cons, List.lookup_cons, List.find?_cons, ih]
    by_cases h : slot.key = key
    · simp [h]
    · have hkey : (key == slot.key) = false := beq_false_of_ne (Ne.symm h)
      simp [h, hkey]

lemma entries_erase (b : BoundedMap V) (key : String) :
    (b.erase key).entries = Entries.erase key b.entries := by
  rw [Entries.erase, entries, entries, List.filter_map]
  rfl

lemma entries_store (b : BoundedMap V) (key : String) (value : V) (rank : Nat) :
    (b.store key value rank).entries = (key, value) :: Entries.erase key b.entries := by
  rw [← entries_erase]
  rfl

lemma entries_touch (b : BoundedMap V) (key : String) : (b.touch key).entries = b.entries := by
  rw [entries, touch, List.map_map]
  refine List.map_congr_left fun slot _ => ?_
  rw [Function.comp_apply]
  split <;> rfl

lemma length_entries (b : BoundedMap V) : b.entries.length = b.slots.length := by
  rw [entries, List.length_map]

lemma clock_makeRoom (b : BoundedMap V) (capacity : Nat) : (b.makeRoom capacity).clock = b.clock := by
  unfold makeRoom
  split
  · split <;> rfl
  · rfl

/-- Room is made by taking the first keys of the order away: as many as a further key has too little room
for. -/
lemma makeRoom_spec (h : b.Ordered order) {capacity : Nat} (hpositive : 0 < capacity)
    (hbound : order.length ≤ capacity) :
    (b.makeRoom capacity).Ordered (order.drop (order.length + 1 - capacity)) ∧
      (b.makeRoom capacity).entries =
        Entries.eraseAll ((order.map Slot.key).take (order.length + 1 - capacity)) b.entries := by
  rw [makeRoom, h.length]
  by_cases hfull : order.length = capacity
  · rw [if_pos hfull]
    cases order with
    | nil =>
      -- a full map is not empty, as the capacity is positive
      rw [List.length_nil] at hfull
      omega
    | cons first order =>
      have hone : (first :: order).length + 1 - capacity = 1 := by omega
      have hrest : (first :: order).filter (·.key ≠ first.key) = order := by
        obtain ⟨hfirst, hdistinct⟩ := List.nodup_cons.1 (List.map_cons ▸ h.distinct)
        rw [List.filter_cons_of_neg (by simp)]
        exact filter_of_notMem hfirst
      have herase := h.erase first.key
      rw [hrest] at herase
      rw [h.oldest, hone]
      refine ⟨herase, ?_⟩
      rw [entries_erase, List.map_cons, List.take_succ_cons, List.take_zero, Entries.eraseAll_cons,
        Entries.eraseAll_nil]
  · have hnone : order.length + 1 - capacity = 0 := by omega
    rw [if_neg hfull, hnone]
    exact ⟨h, (Entries.eraseAll_nil _).symm⟩

/-- A put of a key that is not there: the new slot comes last, and the keys that exceed the capacity are
gone from the front. -/
lemma put_new (h : b.Ordered order) {capacity : Nat} (hpositive : 0 < capacity)
    (hbound : order.length ≤ capacity) (hnew : key ∉ order.map Slot.key) (policy : Eviction) (value : V) :
    (b.put policy capacity key value).Ordered
        (order.drop (order.length + 1 - capacity) ++ [⟨key, value, b.clock⟩]) ∧
      (b.put policy capacity key value).entries =
        (key, value) :: Entries.erase key
          (Entries.eraseAll ((order.map Slot.key).take (order.length + 1 - capacity)) b.entries) := by
  obtain ⟨hroom, hentries⟩ := makeRoom_spec h hpositive hbound
  rw [put, h.find?_of_notMem hnew, ← hentries, ← entries_store]
  refine ⟨?_, rfl⟩
  have hstore := hroom.store key value
  have hkept : (order.drop (order.length + 1 - capacity)).filter (·.key ≠ key) =
      order.drop (order.length + 1 - capacity) := by
    refine filter_of_notMem fun hmem => hnew ?_
    rw [List.map_drop] at hmem
    exact List.mem_of_mem_drop hmem
  rw [hkept, clock_makeRoom] at hstore
  exact hstore

end BoundedMap

end LayeredCache
