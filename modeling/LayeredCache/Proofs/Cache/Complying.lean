import LayeredCache.Proofs.Cache.Invariant

/-!
# Caches that comply with a rule

A rule says which answer to an operation is permitted in a state of a reference, and what the reference may be
then. A cache complies with it if every operation ends at once, without an error, in a permitted answer.
-/

namespace LayeredCache

variable {σ α : Type}

/-- Which answers to operations are permitted, by the states of a reference before and after them. -/
abbrev Rule (α : Type) := α → Operation Json → Answer Json → α → Prop

/-- Every operation keeps the relation `related` between the states of the cache and of the reference, and its
answer is permitted, as long as the values that are put are among `values`. -/
structure Cache.Complies (cache : Cache σ) (values : Json → Prop) (rule : Rule α) (related : σ → α → Prop) :
    Prop where
  unlocked {s a} : related s a → cache.unlocked s = true
  put {s a} (call key) {value} : values value → related s a →
    ∃ s' a', cache.put call key value s = (.ok (), s') ∧ rule a (.put key value) .stored a' ∧ related s' a'
  get {s a} (call key) : related s a → ∃ found s' a', cache.get call key s = .done (.ok found) s' ∧
    rule a (.get key) (.found found) a' ∧ related s' a'
  remove {s a} (call key) : related s a → ∃ found s' a', cache.remove call key s = (.ok found, s') ∧
    rule a (.remove key) (.removed found) a' ∧ related s' a'
  clear {s a} (call) : related s a →
    ∃ s' a', cache.clear call s = (.ok (), s') ∧ rule a .clear .cleared a' ∧ related s' a'
  size {s a} (call) : related s a →
    ∃ n s' a', cache.size call s = (.ok n, s') ∧ rule a .size (.counted n) a' ∧ related s' a'
  release {s a} (call key) : related s a → related (cache.release call key s) a

/-- What every operation keeps can be added to the relation. -/
lemma Cache.Complies.and {cache : Cache σ} {values : Json → Prop} {rule : Rule α} {related : σ → α → Prop}
    {kept : σ → Prop} (h : cache.Complies values rule related) (hkeeps : cache.Keeps values kept) :
    cache.Complies values rule fun s a => related s a ∧ kept s := by
  constructor
  · exact fun hs => h.unlocked hs.1
  · rintro s a call key value hvalue ⟨hs, hkept⟩
    obtain ⟨s', a', hput, hrule, hs'⟩ := h.put call key hvalue hs
    have hkept' := hkeeps.put call key hvalue hkept
    rw [hput] at hkept'
    exact ⟨s', a', hput, hrule, hs', hkept'⟩
  · rintro s a call key ⟨hs, hkept⟩
    obtain ⟨found, s', a', hget, hrule, hs'⟩ := h.get call key hs
    have hkept' := hkeeps.get call key hkept
    rw [hget] at hkept'
    exact ⟨found, s', a', hget, hrule, hs', hkept'⟩
  · rintro s a call key ⟨hs, hkept⟩
    obtain ⟨found, s', a', hremove, hrule, hs'⟩ := h.remove call key hs
    have hkept' := hkeeps.remove call key hkept
    rw [hremove] at hkept'
    exact ⟨found, s', a', hremove, hrule, hs', hkept'⟩
  · rintro s a call ⟨hs, hkept⟩
    obtain ⟨s', a', hclear, hrule, hs'⟩ := h.clear call hs
    have hkept' := hkeeps.clear call hkept
    rw [hclear] at hkept'
    exact ⟨s', a', hclear, hrule, hs', hkept'⟩
  · rintro s a call ⟨hs, hkept⟩
    obtain ⟨n, s', a', hsize, hrule, hs'⟩ := h.size call hs
    have hkept' := hkeeps.size call hkept
    rw [hsize] at hkept'
    exact ⟨n, s', a', hsize, hrule, hs', hkept'⟩
  · exact fun call key hs => ⟨h.release call key hs.1, hkeeps.release call key hs.2⟩

end LayeredCache
