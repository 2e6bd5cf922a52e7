import LayeredCache.Proofs.Layer.Complying
import LayeredCache.Server.Handler

/-!
# Handlers over a cache that complies

What the handlers of the server answer when the cache complies with a rule. Under a layer that blocks it is the
same: no key is held between requests, so that no lookup has to wait for another thread.
-/

namespace LayeredCache

variable {σ α : Type} {cache inner : Cache σ} {values : Json → Prop} {rule : Rule α} {related : σ → α → Prop}

namespace Response

/-- The answer to a lookup of a key. -/
def lookedUp (key : String) : Option Json → Response
  | some value => found key value
  | none => error (.notFound key)

/-- The answer to the removal of a key. -/
def taken (key : String) : Option Json → Response
  | some _ => removed key
  | none => error (.notFound key)

end Response

namespace Server

/-- The handlers answer what the rule permits, at once, and keep the relation. -/
structure Complies (cache : Cache σ) (values : Json → Prop) (rule : Rule α) (related : σ → α → Prop) :
    Prop where
  set {s a} (call) {request : SetRequest} : values request.value → request.invalid? = none → related s a →
    ∃ s' a', set cache call request s = (.stored request.key, s') ∧
      rule a (.put request.key request.value) .stored a' ∧ related s' a'
  get {s a} (call key) : related s a →
    ∃ found s' a', get cache call key s = some (.lookedUp key found, s', call.now) ∧
      rule a (.get key) (.found found) a' ∧ related s' a'
  delete {s a} (call key) : related s a →
    ∃ found s' a', delete cache call key s = (.taken key found, s') ∧
      rule a (.remove key) (.removed found) a' ∧ related s' a'
  clear {s a} (call) : related s a →
    ∃ s' a', clear cache call s = (.cleared (cache.id s'), s') ∧ rule a .clear .cleared a' ∧ related s' a'
  stats {s a} (layers call) : related s a →
    ∃ n s' a', stats cache layers call s = (.statistics (cache.id s) ((cache.stats s).getD .none) n layers, s') ∧
      rule a .size (.counted n) a' ∧ related s' a'

end Server

/-- A handler does what the operation of the cache does; a lookup that finds nothing also gives the key up. -/
lemma Cache.Complies.server (h : cache.Complies values rule related) : Server.Complies cache values rule related := by
  constructor
  · intro s a call request hvalue hvalid hs
    obtain ⟨s', a', hput, hrule, hs'⟩ := h.put call request.key hvalue hs
    refine ⟨s', a', ?_, hrule, hs'⟩
    simp only [Server.set, hvalid, hput]
  · intro s a call key hs
    obtain ⟨found, s', a', hget, hrule, hs'⟩ := h.get call key hs
    have hlookup : Server.get cache call key s =
        some (.lookedUp key found, (Server.afterGet cache call key (.ok found) s').2, call.now) := by
      rw [Server.get, hget]
      cases found <;> rfl
    refine ⟨found, _, a', hlookup, hrule, ?_⟩
    cases found with
    | none => exact h.release call key hs'
    | some value => exact hs'
  · intro s a call key hs
    obtain ⟨found, s', a', hremove, hrule, hs'⟩ := h.remove call key hs
    refine ⟨found, s', a', ?_, hrule, hs'⟩
    rw [Server.delete, hremove]
    cases found <;> rfl
  · intro s a call hs
    obtain ⟨s', a', hclear, hrule, hs'⟩ := h.clear call hs
    refine ⟨s', a', ?_, hrule, hs'⟩
    rw [Server.clear, hclear]
  · intro s a layers call hs
    obtain ⟨n, s', a', hsize, hrule, hs'⟩ := h.size call hs
    refine ⟨n, s', a', ?_, hrule, hs'⟩
    rw [Server.stats, hsize]

namespace Blocking

variable {b : Blocking} {key : String} {thread : Nat}

/-- When no key is held, nobody has to wait for one. -/
lemma admit?_of_held_eq_nil (h : b.held = []) (key : String) (thread : Nat) :
    b.admit? key thread = some (b.hold key thread) := by
  rw [admit?, holder?, h]
  rfl

lemma held_release (h : b.held = []) (key : String) (thread : Nat) : (b.release key thread).held = [] := by
  rw [release, holder?, h]
  exact h

/-- The only key that is held is given up. -/
lemma held_release_hold (h : b.held = []) (key : String) (thread : Nat) :
    ((b.hold key thread).release key thread).held = [] := by
  simp [release, hold, holder?, h]

/-- Whoever holds a key at the end of a lookup gives it up. -/
lemma server_complies (h : inner.Complies values rule related) :
    Server.Complies (around inner) values rule fun s a => s.1.held = [] ∧ related s.2 a := by
  constructor
  · rintro s a call request hvalue hvalid ⟨hheld, hs⟩
    obtain ⟨rest, a', hput, hrule, hrest⟩ := h.put call request.key hvalue hs
    refine ⟨(s.1.release request.key call.thread, rest), a', ?_, hrule, held_release hheld _ _, hrest⟩
    simp only [Server.set, hvalid, around, put, hput]
  · rintro s a call key ⟨hheld, hs⟩
    obtain ⟨found, rest, a', hget, hrule, hrest⟩ := h.get call key hs
    have hlookup : Server.get (around inner) call key s =
        some (.lookedUp key found, ((s.1.hold key call.thread).release key call.thread, rest), call.now) := by
      rw [Server.get, get_of_admitted (admit?_of_held_eq_nil hheld key call.thread) hget]
      cases found <;> rfl
    exact ⟨found, _, a', hlookup, hrule, held_release_hold hheld _ _, hrest⟩
  · rintro s a call key ⟨hheld, hs⟩
    obtain ⟨found, rest, a', hremove, hrule, hrest⟩ := h.remove call key hs
    refine ⟨found, (s.1.release key call.thread, rest), a', ?_, hrule, held_release hheld _ _, hrest⟩
    simp only [Server.delete, around, remove, hremove]
    cases found <;> rfl
  · rintro s a call ⟨hheld, hs⟩
    obtain ⟨rest, a', hclear, hrule, hrest⟩ := h.clear call hs
    refine ⟨(s.1, rest), a', ?_, hrule, hheld, hrest⟩
    simp only [Server.clear, around, Cache.forward, Cache.lift, hclear]
  · rintro s a layers call ⟨hheld, hs⟩
    obtain ⟨n, rest, a', hsize, hrule, hrest⟩ := h.size call hs
    refine ⟨n, (s.1, rest), a', ?_, hrule, hheld, hrest⟩
    simp only [Server.stats, around, Cache.forward, Cache.lift, hsize]

end Blocking

end LayeredCache
