import LayeredCache.Proofs.Cache.Complying
import LayeredCache.Proofs.Layer.Attribution

/-!
# Layers around caches that comply

Logging and synchronization let the answers of the cache beneath them pass, and logging counts those to lookups.
A cache of built-in layers does not fail as long as everything that is stored can be read.
-/

namespace LayeredCache

variable {σ τ α : Type} {inner : Cache σ} {values : Json → Prop} {rule : Rule α} {related : σ → α → Prop}

/-! ## Layers that hand operations on -/

lemma Cache.Complies.forward (h : inner.Complies values rule related) (kept : τ → Prop) :
    (Cache.forward τ inner).Complies values rule fun s a => kept s.1 ∧ related s.2 a := by
  constructor
  · exact fun hs => h.unlocked hs.2
  · rintro s a call key value hvalue ⟨hkept, hs⟩
    obtain ⟨rest, a', hput, hrule, hrest⟩ := h.put call key hvalue hs
    refine ⟨(s.1, rest), a', ?_, hrule, hkept, hrest⟩
    simp only [Cache.forward, Cache.lift, hput]
  · rintro s a call key ⟨hkept, hs⟩
    obtain ⟨found, rest, a', hget, hrule, hrest⟩ := h.get call key hs
    refine ⟨found, (s.1, rest), a', ?_, hrule, hkept, hrest⟩
    simp only [Cache.forward, hget]
    rfl
  · rintro s a call key ⟨hkept, hs⟩
    obtain ⟨found, rest, a', hremove, hrule, hrest⟩ := h.remove call key hs
    refine ⟨found, (s.1, rest), a', ?_, hrule, hkept, hrest⟩
    simp only [Cache.forward, Cache.lift, hremove]
  · rintro s a call ⟨hkept, hs⟩
    obtain ⟨rest, a', hclear, hrule, hrest⟩ := h.clear call hs
    refine ⟨(s.1, rest), a', ?_, hrule, hkept, hrest⟩
    simp only [Cache.forward, Cache.lift, hclear]
  · rintro s a call ⟨hkept, hs⟩
    obtain ⟨n, rest, a', hsize, hrule, hrest⟩ := h.size call hs
    refine ⟨n, (s.1, rest), a', ?_, hrule, hkept, hrest⟩
    simp only [Cache.forward, Cache.lift, hsize]
  · exact fun call key hs => ⟨hs.1, h.release call key hs.2⟩

/-- The lock is free between operations. -/
lemma Synchronized.complies (h : inner.Complies values rule related) :
    (around inner).Complies values rule fun s a => s.1 = free ∧ related s.2 a := by
  have hforward := h.forward fun own : Synchronized => own = free
  constructor
  · rintro ⟨_, rest⟩ a ⟨rfl, hrest⟩
    show (!false && inner.unlocked rest) = true
    rw [h.unlocked hrest]
    rfl
  · exact hforward.put
  · rintro ⟨_, s⟩ a call key ⟨rfl, hs⟩
    obtain ⟨found, rest, b, hget, hrule, hrest⟩ := h.get call key hs
    refine ⟨found, (free, rest), b, ?_, hrule, rfl, hrest⟩
    simp only [around, get, inside, free, hget]
    rfl
  · exact hforward.remove
  · exact hforward.clear
  · exact hforward.size
  · exact hforward.release

/-! ## Counting -/

/-- The counts after an answer. -/
def Stats.after (t : Stats) : Answer Json → Stats
  | .found value => t.record value.isSome
  | _ => t

/-- The rule for a cache whose lookups are counted. -/
def Rule.counted (rule : Rule α) : Rule (α × Stats) := fun a operation answer a' =>
  rule a.1 operation answer a'.1 ∧ a'.2 = a.2.after answer

/-- The counts are those of the answers so far. -/
lemma Logging.complies (h : inner.Complies values rule related) :
    (around inner).Complies values rule.counted fun s a => s.1.counts = a.2 ∧ related s.2 a.1 := by
  have hforward (t : Stats) := h.forward fun own : Logging => own.counts = t
  constructor
  · exact fun hs => h.unlocked hs.2
  · intro s a call key value hvalue hs
    obtain ⟨s', b, hput, hrule, hs'⟩ := (hforward a.2).put call key hvalue hs
    exact ⟨s', (b, a.2), hput, ⟨hrule, rfl⟩, hs'⟩
  · rintro s a call key ⟨hcounts, hs⟩
    obtain ⟨found, rest, b, hget, hrule, hrest⟩ := h.get call key hs
    refine ⟨found, (⟨s.1.counts.record found.isSome⟩, rest), (b, a.2.record found.isSome), ?_, ⟨hrule, rfl⟩, ?_,
      hrest⟩
    · simp only [around, hget]
      rfl
    · exact congrArg (Stats.record · found.isSome) hcounts
  · intro s a call key hs
    obtain ⟨found, s', b, hremove, hrule, hs'⟩ := (hforward a.2).remove call key hs
    exact ⟨found, s', (b, a.2), hremove, ⟨hrule, rfl⟩, hs'⟩
  · intro s a call hs
    obtain ⟨s', b, hclear, hrule, hs'⟩ := (hforward a.2).clear call hs
    exact ⟨s', (b, a.2), hclear, ⟨hrule, rfl⟩, hs'⟩
  · intro s a call hs
    obtain ⟨n, s', b, hsize, hrule, hs'⟩ := (hforward a.2).size call hs
    exact ⟨n, s', (b, a.2), hsize, ⟨hrule, rfl⟩, hs'⟩
  · exact fun call key hs => (hforward _).release call key hs

/-! ## Caches that do not fail -/

/-- The operations of a cache that does what they say do not fail, whatever they answer. -/
lemma Cache.Stores.complies {view : View σ} {ok : σ → Prop} (h : inner.Stores view (fun _ => True) fun _ s => ok s)
    (hback : ∀ value, values value → ∃ v, view.back (view.form value) = some v) :
    inner.Complies values (fun _ _ _ _ => True) fun s (_ : Unit) => ok s ∧ view.Holds values s := by
  constructor
  · exact fun hs => h.unlocked (n := 0) hs.1
  · rintro s a call key value hvalue ⟨hs, hholds⟩
    obtain ⟨hs', hstored⟩ := h.put call key value trivial hs
    have hlegible := hholds.not_illegible hback
    rcases hput : inner.put call key value s with ⟨outcome, s'⟩
    rw [hput] at hs' hstored
    cases outcome with
    | error e => exact absurd (hstored.failed e rfl) hlegible
    | ok u =>
      have hperformed : view.Performed call (.put key value) s (.ok .stored) s' := .of_put hstored hlegible
      exact ⟨s', a, rfl, trivial, hs', hperformed.holds hvalue hholds⟩
  · rintro s a call key ⟨hs, hholds⟩
    obtain ⟨outcome, s', hget, hs', hlooked⟩ := h.get call key trivial hs
    cases outcome with
    | error e => exact absurd ⟨key, hlooked.failed⟩ (hholds.not_illegible hback)
    | ok found => exact ⟨found, s', a, hget, trivial, hs', (View.Performed.of_get hlooked).holds trivial hholds⟩
  · rintro s a call key ⟨hs, hholds⟩
    obtain ⟨hs', hremoved⟩ := h.remove call key trivial hs
    rcases hremove : inner.remove call key s with ⟨outcome, s'⟩
    rw [hremove] at hs' hremoved
    cases outcome with
    | error e => exact absurd ⟨key, hremoved.failed⟩ (hholds.not_illegible hback)
    | ok found => exact ⟨found, s', a, rfl, trivial, hs', (View.Performed.of_remove hremoved).holds trivial hholds⟩
  · rintro s a call ⟨hs, hholds⟩
    obtain ⟨s', hclear, hs', hbare⟩ := h.clear call trivial hs
    refine ⟨s', a, hclear, trivial, hs', fun key stored hstored => ?_⟩
    rw [hbare key] at hstored
    cases hstored
  · rintro s a call ⟨hs, hholds⟩
    obtain ⟨n, s', hsize, hs', hcounted⟩ := h.size call trivial hs
    exact ⟨n, s', a, hsize, trivial, hs', fun key stored hstored =>
      hholds key stored ((hcounted.wanes key).entry_eq_some hstored).1⟩
  · rintro s a call key ⟨hs, hholds⟩
    obtain ⟨hs', hsame⟩ := h.release call key trivial hs
    exact ⟨hs', fun other stored hstored => hholds other stored ((hsame.entry other).symm.trans hstored)⟩

end LayeredCache
