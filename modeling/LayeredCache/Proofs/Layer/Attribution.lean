import LayeredCache.Proofs.Cache.History
import LayeredCache.Proofs.Layer.Entries

/-!
# Where entries come from

Every entry of a cache goes back to the last put of its key, and nothing that has happened since could have
taken it away (`Cache.History.attributed`). So a lookup that finds something finds what that put stored, and no
layer has cleared the cache in between (`Cache.History.found`).
-/

namespace LayeredCache

variable {σ : Type} {cache inner : Cache σ} {view : View σ} {calls : Call → Prop} {ok : Nat → σ → Prop}
  {values : Json → Prop}

/-! ## Single operations -/

/-- What an operation has done, as long as everything stored can be read. -/
structure View.Performed (view : View σ) (call : Call) (operation : Operation Json) (s : σ) (outcome : Outcome)
    (s' : σ) : Prop where
  /-- An entry that is there was put by the operation, or was there before and was spared. -/
  entry (key) : view.entry key s' = none ∨
    (∃ value, operation = .put key value ∧ view.entry key s' = some (view.form value)) ∨
    (operation.Spares key ∧ view.entry key s' = view.entry key s ∧ view.clears s' = view.clears s)
  /-- A lookup that finds a value has read it in the entry of its key. -/
  found (key value) : operation = .get key → outcome = .ok (.found (some value)) →
    view.stale call s = false ∧ view.Same s s' ∧
      ∃ stored, view.entry key s = some stored ∧ view.back stored = some value

/-- At calls that are part of no other operation, the cache does what its operations say, even if it waits. -/
structure Cache.Performs (cache : Cache σ) (view : View σ) (ok : Nat → σ → Prop) : Prop where
  perform {thread now s operation outcome s' later} : ok now s → ¬ view.Illegible s →
    (cache.perform (.at thread now) s operation).alone now = some (outcome, s', later) →
    now ≤ later ∧ ok now s' ∧ view.Performed (.at thread now) operation s outcome s'
  release {s} (thread now key) : ok now s →
    ok now (cache.release (.at thread now) key s) ∧ view.Same s (cache.release (.at thread now) key s)
  later {m n s} : ok m s → m ≤ n → ok n s

namespace View

variable {call : Call} {s s' : σ} {key : String} {outcome : Outcome}

/-- An operation that only lets entries go. -/
lemma Performed.of_wanes {operation : Operation Json} (hspares : ∀ key, operation.Spares key)
    (hwanes : ∀ key, view.Wanes key s s') (hget : ∀ key, operation ≠ .get key) :
    view.Performed call operation s outcome s' :=
  ⟨fun key => (hwanes key).imp_right fun hsame => .inr ⟨hspares key, hsame⟩,
    fun key _ hop _ => absurd hop (hget key)⟩

lemma Performed.of_put {value : Json} {result : Except CacheError Unit} (h : view.Stored key value s result s')
    (hlegible : ¬ view.Illegible s) :
    view.Performed call (.put key value) s (result.map fun () => .stored) s' := by
  refine ⟨fun other => ?_, fun _ _ hop _ => nomatch hop⟩
  by_cases hother : other = key
  · cases result with
    | error e => exact absurd (h.failed e rfl) hlegible
    | ok u =>
      rw [hother]
      exact (h.own rfl).imp_right fun hstored => .inl ⟨value, rfl, hstored⟩
  · exact (h.others other hother).imp_right fun hsame => .inr ⟨Ne.symm hother, hsame⟩

lemma Performed.of_get {found : Found} (h : view.LookedUp call key s found s') :
    view.Performed call (.get key) s (found.map .found) s' := by
  refine ⟨fun other => (h.wanes other).imp_right fun hsame => .inr ⟨trivial, hsame⟩, fun other value hop hout => ?_⟩
  cases hop
  obtain ⟨_, hfound, hvalue⟩ : ∃ found', found = .ok found' ∧ found' = some value := by
    cases found <;> cases hout
    exact ⟨_, rfl, rfl⟩
  subst hfound hvalue
  cases hstale : view.stale call s with
  | true => cases (h.cleared hstale).1
  | false =>
    obtain ⟨hanswer, hsame⟩ := h.fresh hstale
    refine ⟨rfl, hsame, ?_⟩
    cases hentry : view.entry key s with
    | none =>
      rw [hentry] at hanswer
      cases hanswer
    | some stored =>
      rw [hentry] at hanswer
      obtain ⟨read, hread, hsome⟩ := Option.map_eq_some_iff.1 hanswer.symm
      exact ⟨stored, rfl, hread.trans hsome⟩

lemma Performed.of_remove {found : Found} (h : view.Removed call key s found s') :
    view.Performed call (.remove key) s (found.map .removed) s' := by
  refine ⟨fun other => ?_, fun _ _ hop _ => nomatch hop⟩
  by_cases hother : other = key
  · exact .inl (hother ▸ h.gone)
  · exact (h.wanes other).imp_right fun hsame => .inr ⟨Ne.symm hother, hsame⟩

lemma Performed.of_clear (h : view.Bare s') : view.Performed call .clear s outcome s' :=
  ⟨fun key => .inl (h key), fun _ _ hop _ => nomatch hop⟩

lemma Performed.of_size (h : view.Counted call s s') : view.Performed call .size s outcome s' :=
  .of_wanes (fun _ => trivial) h.wanes (fun _ => nofun)

end View

/-! ## What is stored -/

/-- Only forms of such values are stored. -/
def View.Holds (view : View σ) (values : Json → Prop) (s : σ) : Prop :=
  ∀ key stored, view.entry key s = some stored → ∃ value, values value ∧ stored = view.form value

lemma View.Holds.not_illegible {s : σ} (h : view.Holds values s)
    (hback : ∀ value, values value → ∃ v, view.back (view.form value) = some v) : ¬ view.Illegible s := by
  rintro ⟨key, stored, hstored, hnone⟩
  obtain ⟨value, hvalue, rfl⟩ := h key stored hstored
  obtain ⟨v, hv⟩ := hback value hvalue
  rw [hnone] at hv
  cases hv

/-- What an operation stores is a form of the value that it puts. -/
lemma View.Performed.holds {call : Call} {operation : Operation Json} {outcome : Outcome} {s s' : σ}
    (h : view.Performed call operation s outcome s') (hputs : operation.Puts values)
    (hholds : view.Holds values s) : view.Holds values s' := by
  intro key stored hstored
  rcases h.entry key with hnone | ⟨value, rfl, hform⟩ | ⟨-, hsame, -⟩
  · rw [hnone] at hstored
    cases hstored
  · rw [hform] at hstored
    exact ⟨value, hputs, (Option.some.inj hstored).symm⟩
  · exact hholds key stored (hsame.symm.trans hstored)

/-! ## Operations of a cache -/

/-- One operation ends at once and keeps what is known of the state. -/
lemma Cache.Stores.perform (h : cache.Stores view calls ok) {call : Call} {s : σ} (hcall : calls call)
    (hs : ok call.now s) (operation : Operation Json) :
    ∃ outcome s', cache.perform call s operation = .done outcome s' ∧ ok call.now s' ∧
      (¬ view.Illegible s → view.Performed call operation s outcome s') := by
  have hunlocked := h.unlocked hs
  cases operation with
  | put key value =>
    obtain ⟨hs', hstored⟩ := h.put call key value hcall hs
    refine ⟨_, _, ?_, hs', fun hlegible => .of_put hstored hlegible⟩
    rw [Cache.perform, Cache.gated_of_unlocked hunlocked]
    rfl
  | get key =>
    obtain ⟨found, s', hget, hs', hlooked⟩ := h.get call key hcall hs
    refine ⟨_, s', ?_, hs', fun _ => .of_get hlooked⟩
    rw [Cache.perform, hget]
    rfl
  | remove key =>
    obtain ⟨hs', hremoved⟩ := h.remove call key hcall hs
    refine ⟨_, _, ?_, hs', fun _ => .of_remove hremoved⟩
    rw [Cache.perform, Cache.gated_of_unlocked hunlocked]
    rfl
  | clear =>
    obtain ⟨s', hclear, hs', hbare⟩ := h.clear call hcall hs
    refine ⟨.ok .cleared, s', ?_, hs', fun _ => .of_clear hbare⟩
    rw [Cache.perform, Cache.gated_of_unlocked hunlocked, hclear]
    rfl
  | size =>
    obtain ⟨n, s', hsize, hs', hcounted⟩ := h.size call hcall hs
    refine ⟨.ok (.counted n), s', ?_, hs', fun _ => .of_size hcounted⟩
    rw [Cache.perform, Cache.gated_of_unlocked hunlocked, hsize]
    rfl

lemma Cache.Stores.performs (h : cache.Stores view calls ok) (hcalls : ∀ thread now, calls (.at thread now)) :
    cache.Performs view ok := by
  constructor
  · intro thread now s operation outcome s' later hs hlegible halone
    obtain ⟨outcome', s'', hperform, hs'', hperformed⟩ := h.perform (hcalls thread now) hs operation
    rw [hperform] at halone
    cases halone
    exact ⟨Nat.le_refl _, hs'', hperformed hlegible⟩
  · exact fun thread now key hs => h.release _ key (hcalls thread now) hs
  · exact h.later

namespace Blocking

/-- A lookup that is not admitted changes nothing, and fails if it does not wait forever. -/
lemma get_of_not_admitted {s s' : Blocking × σ} {thread now : Nat} {key : String} {found : Found} {later : Nat}
    (hgrant : s.1.admit? key thread = none)
    (h : ((around inner).get (.at thread now) key s).alone now = some (found, s', later)) :
    now ≤ later ∧ s' = s ∧ ∃ e, found = .error e := by
  change (get inner (.at thread now) key s).alone now = _ at h
  simp only [get, Call.at, hgrant] at h
  split at h
  · cases h
    exact ⟨Nat.le_refl _, rfl, _, rfl⟩
  · rw [await] at h
    cases htimeout : s.1.timeout with
    | none =>
      rw [htimeout] at h
      cases h
    | some nanos =>
      rw [htimeout] at h
      simp only [Option.map_some, Action.alone, hgrant, timedOut] at h
      cases h
      exact ⟨Nat.le_max_left .., rfl, _, rfl⟩

/-- An admitted lookup does what the inner one does. -/
lemma get_of_admitted {s : Blocking × σ} {call : Call} {key : String} {own : Blocking}
    (hgrant : s.1.admit? key call.thread = some own) {found : Found} {rest : σ}
    (hget : inner.get call key s.2 = .done found rest) :
    (around inner).get call key s = .done found ((settle key call.thread found own).2, rest) := by
  simp only [around, get, hgrant, admitted, hget, Action.outward, fst_settle]

/-- Whatever keys are held, the cache that blocks does what its operations say. -/
lemma performs (h : inner.Stores view calls ok) (hcalls : ∀ thread now, calls (.at thread now)) :
    (around inner).Performs (view.under Blocking) fun n s => ok n s.2 := by
  constructor
  · intro thread now s operation outcome s' later hs hlegible halone
    have hunlocked : (around inner).unlocked s = true := h.unlocked hs
    have hcalled := hcalls thread now
    cases operation with
    | put key value =>
      obtain ⟨hs', hstored⟩ := h.put (.at thread now) key value hcalled hs
      rw [Cache.perform, Cache.gated_of_unlocked hunlocked] at halone
      cases halone
      exact ⟨Nat.le_refl _, hs', .of_put (s := s) (hstored.under (τ := Blocking)) hlegible⟩
    | get key =>
      rw [Cache.perform, Action.alone_map] at halone
      obtain ⟨⟨found, s'', instant⟩, hlookup, hmapped⟩ := Option.map_eq_some_iff.1 halone
      cases hmapped
      cases hgrant : s.1.admit? key thread with
      | some own =>
        obtain ⟨found', rest, hget, hrest, hlooked⟩ := h.get (.at thread now) key hcalled hs
        rw [get_of_admitted hgrant hget] at hlookup
        cases hlookup
        exact ⟨Nat.le_refl _, hrest, .of_get hlooked.under⟩
      | none =>
        obtain ⟨hle, rfl, e, rfl⟩ := get_of_not_admitted hgrant hlookup
        refine ⟨hle, hs, fun other => .inr (.inr ⟨trivial, rfl, rfl⟩), fun _ _ _ hfound => ?_⟩
        cases hfound
    | remove key =>
      obtain ⟨hs', hremoved⟩ := h.remove (.at thread now) key hcalled hs
      rw [Cache.perform, Cache.gated_of_unlocked hunlocked] at halone
      cases halone
      exact ⟨Nat.le_refl _, hs', .of_remove (s := s) (hremoved.under (τ := Blocking))⟩
    | clear =>
      obtain ⟨rest, hclear, hrest, hbare⟩ := h.clear (.at thread now) hcalled hs
      rw [Cache.perform, Cache.gated_of_unlocked hunlocked] at halone
      simp only [around, Cache.forward, hclear] at halone
      cases halone
      exact ⟨Nat.le_refl _, hrest, .of_clear hbare⟩
    | size =>
      obtain ⟨n, rest, hsize, hrest, hcounted⟩ := h.size (.at thread now) hcalled hs
      rw [Cache.perform, Cache.gated_of_unlocked hunlocked] at halone
      simp only [around, Cache.forward, hsize] at halone
      cases halone
      exact ⟨Nat.le_refl _, hrest, .of_size hcounted.under⟩
  · exact fun thread now key hs => ⟨hs, fun _ => rfl, rfl⟩
  · exact h.later

end Blocking

/-! ## Histories -/

/-- The event put the value under the key, and since then the key was neither put again nor removed, and nothing
was cleared. -/
structure View.LastPut (view : View σ) (key : String) (value : Json) (recent : List (Event σ))
    (put : Event σ) : Prop where
  puts : put.operation = .put key value
  spared : ∀ e ∈ recent, e.operation.Spares key
  uncleared : ∀ e ∈ recent, view.clears e.after = view.clears put.after

lemma View.LastPut.cons {key : String} {value : Json} {recent : List (Event σ)} {put e : Event σ}
    (h : view.LastPut key value recent put) (hspared : e.operation.Spares key)
    (hclears : view.clears e.after = view.clears put.after) : view.LastPut key value (e :: recent) put :=
  ⟨h.puts, List.forall_mem_cons.2 ⟨hspared, h.spared⟩, List.forall_mem_cons.2 ⟨hclears, h.uncleared⟩⟩

/-- Every entry is what the last put of its key has stored, and nothing was cleared since. -/
structure View.Attributed (view : View σ) (ok : Nat → σ → Prop) (values : Json → Prop) (log : List (Event σ))
    (s : σ) : Prop where
  entry (key stored) : view.entry key s = some stored → ∃ recent put before value, log = recent ++ put :: before ∧
    view.LastPut key value recent put ∧ values value ∧ stored = view.form value ∧
    view.clears s = view.clears put.after ∧ ok put.now put.after

namespace View.Attributed

variable {log : List (Event σ)} {s s' : σ}

lemma same (h : view.Attributed ok values log s) (hsame : view.Same s s') : view.Attributed ok values log s' := by
  constructor
  intro key stored hstored
  obtain ⟨recent, put, before, value, hlog, hlast, hvalue, hform, hclears, hput⟩ :=
    h.entry key stored ((hsame.entry key).symm.trans hstored)
  exact ⟨recent, put, before, value, hlog, hlast, hvalue, hform, hsame.clears.trans hclears, hput⟩

/-- Nothing but the forms of values is stored. -/
lemma holds (h : view.Attributed ok values log s) : view.Holds values s := by
  intro key stored hstored
  obtain ⟨recent, put, before, value, -, -, hvalue, hform, -⟩ := h.entry key stored hstored
  exact ⟨value, hvalue, hform⟩

lemma cons {thread now : Nat} {operation : Operation Json} {outcome : Outcome}
    (h : view.Attributed ok values log s) (hputs : operation.Puts values)
    (hperformed : view.Performed (.at thread now) operation s outcome s') (hs' : ok now s') :
    view.Attributed ok values (⟨thread, now, operation, outcome, s'⟩ :: log) s' := by
  constructor
  intro key stored hstored
  rcases hperformed.entry key with hnone | ⟨value, rfl, hform⟩ | ⟨hspares, hentry, hclears⟩
  · rw [hnone] at hstored
    cases hstored
  · -- the entry is the one that was just put
    rw [hform] at hstored
    exact ⟨[], _, log, value, rfl, ⟨rfl, by simp, by simp⟩, hputs, (Option.some.inj hstored).symm, rfl, hs'⟩
  · obtain ⟨recent, put, before, value, rfl, hlast, hvalue, hform, hsince, hput⟩ :=
      h.entry key stored (hentry.symm.trans hstored)
    exact ⟨_ :: recent, put, before, value, rfl, hlast.cons hspares (hclears.trans hsince), hvalue, hform,
      hclears.trans hsince, hput⟩

end View.Attributed

namespace Cache.History

variable {first s : σ} {start last : Nat} {log : List (Event σ)}

/-- After any history, what is stored goes back to the last puts. -/
theorem attributed (h : cache.History (fun _ => True) values first start log s last)
    (hcache : cache.Performs view ok) (hfirst : ok start first) (hbare : view.Bare first)
    (hback : ∀ value, values value → ∃ v, view.back (view.form value) = some v) :
    ok last s ∧ view.Attributed ok values log s := by
  induction h with
  | new =>
    refine ⟨hfirst, ⟨fun key stored hstored => ?_⟩⟩
    rw [hbare key] at hstored
    cases hstored
  | perform _ hle _ hputs halone ih =>
    obtain ⟨hs, hattributed⟩ := ih
    obtain ⟨hlater, hs', hperformed⟩ := hcache.perform (hcache.later hs hle)
      (hattributed.holds.not_illegible hback) halone
    exact ⟨hcache.later hs' hlater, hattributed.cons hputs hperformed hs'⟩
  | release key _ hle _ ih =>
    obtain ⟨hs, hattributed⟩ := ih
    obtain ⟨hs', hsame⟩ := hcache.release _ _ key (hcache.later hs hle)
    exact ⟨hs', hattributed.same hsame⟩

/-- What a lookup finds is read in what the last put of the key has stored, and no clear was due since. -/
theorem found (h : cache.History (fun _ => True) values first start log s last)
    (hcache : cache.Performs view ok) (hfirst : ok start first) (hbare : view.Bare first)
    (hback : ∀ value, values value → ∃ v, view.back (view.form value) = some v)
    {later : List (Event σ)} {e : Event σ} {earlier : List (Event σ)} (hlog : log = later ++ e :: earlier)
    {key : String} {v : Json} (hget : e.operation = .get key) (hfound : e.outcome = .ok (.found (some v))) :
    ∃ recent put before value, earlier = recent ++ put :: before ∧ view.LastPut key value (e :: recent) put ∧
      values value ∧ view.back (view.form value) = some v ∧ ok put.now put.after ∧
      ∃ s, view.clears s = view.clears put.after ∧ view.stale (.at e.thread e.now) s = false ∧ ok e.now s := by
  induction h generalizing later with
  | new => simp at hlog
  | release key _ hle _ ih => exact ih hlog
  | perform hbefore hle _ hputs halone ih =>
    cases later with
    | cons first later =>
      obtain ⟨-, hlog⟩ := List.cons.inj hlog
      exact ih hlog
    | nil =>
      obtain ⟨rfl, rfl⟩ := List.cons.inj hlog
      obtain ⟨hs, hattributed⟩ := hbefore.attributed hcache hfirst hbare hback
      have hs := hcache.later hs hle
      obtain ⟨hlater, hs', hperformed⟩ := hcache.perform hs (hattributed.holds.not_illegible hback) halone
      obtain ⟨hfresh, hsame, stored, hstored, hread⟩ := hperformed.found key v hget hfound
      obtain ⟨recent, put, before, value, rfl, hlast, hvalue, rfl, hclears, hput⟩ :=
        hattributed.entry key stored hstored
      refine ⟨recent, put, before, value, rfl, hlast.cons ?_ (hsame.clears.trans hclears), hvalue, hread, hput, _,
        hclears, hfresh, hs⟩
      cases hget
      trivial

end Cache.History

end LayeredCache
