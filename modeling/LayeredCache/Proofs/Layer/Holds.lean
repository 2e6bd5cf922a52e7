import LayeredCache.Layer.Blocking
import LayeredCache.Proofs.Layer.Storage

/-!
# Holds on keys

What an admission, a hold and a release do to the holders of the keys.
-/

namespace LayeredCache

namespace Blocking

variable {b b' : Blocking} {key : String} {thread : Nat}

lemma holder?_hold (b : Blocking) (key : String) (thread : Nat) (other : String) :
    (b.hold key thread).holder? other = if other = key then some thread else b.holder? other := by
  rw [holder?, hold, lookup_cons_ite, lookup_filter_ne]
  by_cases h : other = key
  · rw [if_pos h, if_pos h]
  · rw [if_neg h, if_neg h, if_neg h]
    rfl

lemma holder?_release (b : Blocking) (key : String) (thread : Nat) (other : String) :
    (b.release key thread).holder? other =
      if other = key ∧ b.holder? key = some thread then none else b.holder? other := by
  unfold release
  by_cases h : b.holder? key = some thread
  · rw [if_pos h, holder?, lookup_filter_ne]
    by_cases hother : other = key
    · rw [if_pos hother, if_pos ⟨hother, h⟩]
    · rw [if_neg hother, if_neg fun hand => hother hand.1]
      rfl
  · rw [if_neg h, if_neg fun hand => h hand.2]

/-- A release ends the hold of the thread on the key, and no other one. -/
lemma holder?_release_eq_some {other : String} {holder : Nat} :
    (b.release key thread).holder? other = some holder ↔
      b.holder? other = some holder ∧ ¬(thread = holder ∧ key = other) := by
  rw [holder?_release]
  by_cases h : other = key ∧ b.holder? key = some thread
  · obtain ⟨rfl, hheld⟩ := h
    rw [if_pos ⟨rfl, hheld⟩, hheld]
    constructor
    · exact nofun
    · rintro ⟨heq, hne⟩
      exact absurd ⟨Option.some.inj heq, rfl⟩ hne
  · rw [if_neg h]
    constructor
    · refine fun hheld => ⟨hheld, ?_⟩
      rintro ⟨rfl, rfl⟩
      exact h ⟨rfl, hheld⟩
    · exact fun hheld => hheld.1

/-- A thread is admitted to a free key, which it holds then, and to a key that it holds. -/
lemma admit?_eq_some : b.admit? key thread = some b' ↔
    (b.holder? key = none ∧ b' = b.hold key thread) ∨ (b.holder? key = some thread ∧ b' = b) := by
  unfold admit?
  cases hholder : b.holder? key with
  | none => simp [eq_comm]
  | some holder =>
    by_cases h : holder = thread
    · simp [h, eq_comm]
    · simp [h]

/-- A thread is kept out by another thread that holds the key. -/
lemma admit?_eq_none : b.admit? key thread = none ↔
    ∃ holder, b.holder? key = some holder ∧ holder ≠ thread := by
  unfold admit?
  cases hholder : b.holder? key with
  | none => simp
  | some holder => simp

/-- An admission gives the key to the thread and leaves the other keys alone. -/
lemma holder?_of_admit? (h : b.admit? key thread = some b') (other : String) :
    b'.holder? other = if other = key then some thread else b.holder? other := by
  rcases admit?_eq_some.1 h with ⟨_, rfl⟩ | ⟨hheld, rfl⟩
  · exact holder?_hold b key thread other
  · by_cases hother : other = key
    · rw [if_pos hother, hother, hheld]
    · rw [if_neg hother]

lemma holder?_admit?_eq_some {other : String} {holder : Nat} (h : b.admit? key thread = some b') :
    b'.holder? other = some holder ↔
      (thread = holder ∧ key = other) ∨ b.holder? other = some holder := by
  rw [holder?_of_admit? h]
  by_cases hother : other = key
  · rw [if_pos hother, Option.some.injEq, hother]
    rcases admit?_eq_some.1 h with ⟨hfree, -⟩ | ⟨hheld, -⟩
    · simp [hfree]
    · simp [hheld]
  · rw [if_neg hother]
    simp [Ne.symm hother]

/-- The end of an admitted lookup leaves its outcome as it is. -/
lemma fst_settle (key : String) (thread : Nat) (outcome : Found) (b : Blocking) :
    (settle key thread outcome b).1 = outcome := by
  unfold settle
  split <;> rfl

/-- A lookup that has found a value gives the key up. -/
lemma holder?_settle {found : Option Json} (h : b.holder? key = some thread) :
    (settle key thread (.ok found) b).2.holder? key = if found.isNone then some thread else none := by
  cases found with
  | none => exact h
  | some value => exact (holder?_release ..).trans (if_pos ⟨rfl, h⟩)

/-- Without a holder of any key, nothing is held. -/
lemma held_eq_nil (h : ∀ key, b.holder? key = none) : b.held = [] := by
  cases hheld : b.held with
  | nil => rfl
  | cons entry held =>
    have hfree := h entry.1
    rw [holder?, hheld, List.lookup_cons_self] at hfree
    cases hfree

end Blocking

end LayeredCache
