import LayeredCache.Proofs.Cache.Program
import LayeredCache.Server.Handler

/-!
# What requests do to the cache

A request asks the cache for at most one operation. Its worker does nothing else to the cache, except that
it gives up a key that it has not found.
-/

namespace LayeredCache

/-- The operation that a request for a route asks for. One that is refused before asks for none. -/
def Route.operation? (request : Request) : Route → Option (Operation Json)
  | .set =>
    match Server.readBody request.contentType request.body with
    | .ok stored => if stored.invalid?.isNone then some (.put stored.key stored.value) else none
    | .error _ => none
  | .get segment => (Server.readKey segment).toOption.map .get
  | .delete segment => (Server.readKey segment).toOption.map .remove
  | .clear => some .clear
  -- the statistics are read beside the size, without any lock on the way
  | .stats => some .size
  | .health => none

/-- The route answers the request. -/
def Request.Asks (request : Request) (route : Route) : Prop :=
  Route.ofPath? (Target.path request.target) = some route ∧ request.method ∈ route.methods

/-- The answer of a route as it is sent: a `HEAD` request gets no body. -/
def Response.sent (request : Request) (response : Response) : Response :=
  (if request.method = "HEAD" then { response with body := "" } else response).anyOrigin

/-- The operation that a request asks for. -/
def Request.operation? (request : Request) : Option (Operation Json) :=
  match Route.ofPath? (Target.path request.target) with
  | some route => if request.method ∈ route.methods then route.operation? request else none
  | none => none

variable {σ : Type}

/-- The state after a worker has done an operation while no other thread acts. There is none if it waits
forever. -/
def Cache.work (cache : Cache σ) (call : Call) (s : σ) : Operation Json → Option σ
  | .put key value => some (cache.put call key value s).2
  | .get key => ((cache.get call key s).alone call.now).map fun (outcome, s, now) =>
    (Server.afterGet cache { call with now } key outcome s).2
  | .remove key => some (cache.remove call key s).2
  | .clear => some (cache.clear call s).2
  | .size => some (cache.size call s).2

namespace Server

variable {cache : Cache σ} {layers : List String} {time : String} {call : Call} {request : Request} {s : σ}

lemma status_of_readKey {segment : List Char} (h : readKey segment = .error response) : response.status = 400 := by
  unfold readKey at h
  split at h
  · cases h
  · obtain rfl := Except.error.inj h
    rfl

/-- The answer of a route leads to the state that the operation leads to. -/
lemma answer_state (route : Route) : (answer cache layers time call request s route).map (·.2.1) =
    match route.operation? request with
    | some operation => cache.work call s operation
    | none => some s := by
  cases route with
  | set =>
    rw [answer, Route.operation?]
    cases readBody request.contentType request.body with
    | error response => rfl
    | ok stored =>
      show some (set cache call stored s).2 =
        match if stored.invalid?.isNone then some (.put stored.key stored.value) else none with
        | some operation => cache.work call s operation
        | none => some s
      unfold set
      cases stored.invalid? with
      | some reason => rfl
      | none =>
        simp only [Option.isNone_none, if_true, Cache.work]
        rcases cache.put call stored.key stored.value s with ⟨outcome, rest⟩
        cases outcome <;> rfl
  | get segment =>
    rw [answer, Route.operation?]
    cases readKey segment with
    | error response => rfl
    | ok key =>
      show (get cache call key s).map (·.2.1) = _
      unfold get
      rw [Option.map_map]
      rfl
  | delete segment =>
    rw [answer, Route.operation?]
    cases readKey segment with
    | error response => rfl
    | ok key =>
      show some (delete cache call key s).2 = some (cache.remove call key s).2
      unfold delete
      rcases cache.remove call key s with ⟨outcome, rest⟩
      cases outcome with
      | error e => rfl
      | ok found => cases found <;> rfl
  | clear =>
    show some (clear cache call s).2 = some (cache.clear call s).2
    unfold clear
    rcases cache.clear call s with ⟨outcome, rest⟩
    cases outcome <;> rfl
  | stats =>
    show some (stats cache layers call s).2 = some (cache.size call s).2
    unfold stats
    rcases cache.size call s with ⟨outcome, rest⟩
    cases outcome <;> rfl
  | health => rfl

/-- No route answers the question whether one may ask. -/
private lemma options_notMem (route : Route) : "OPTIONS" ∉ route.methods := by
  cases route <;> simp [Route.methods]

lemma status_sent (request : Request) (response : Response) : (response.sent request).status = response.status := by
  unfold Response.sent
  split <;> rfl

lemma body_sent (h : request.method = "GET") (response : Response) :
    (response.sent request).body = response.body := by
  rw [Response.sent, if_neg (h ▸ by decide)]
  rfl

/-- A request that a route answers gets this answer as it is sent. -/
lemma serve_of_asks {route : Route} (h : request.Asks route) : serve cache layers time call request s =
    (answer cache layers time call request s route).map fun (response, s', now) =>
      (response.sent request, s', now) := by
  have hoptions : request.method ≠ "OPTIONS" := fun heq => options_notMem route (heq ▸ h.2)
  rw [serve, h.1]
  simp only [dispatch, if_neg hoptions, Option.map_some, Option.getD_some, if_pos h.2, Option.map_map]
  rfl

/-- Any other request is answered without a look at the cache. -/
lemma serve_of_not_asks (h : ∀ route, ¬ request.Asks route) : ∃ response : Response,
    serve cache layers time call request s = some (response, s, call.now) ∧ response.status ∈ [200, 404, 405] := by
  unfold serve dispatch
  by_cases hoptions : request.method = "OPTIONS"
  · simp only [if_pos hoptions]
    refine ⟨_, rfl, ?_⟩
    cases Route.ofPath? (Target.path request.target) <;> exact List.mem_cons_self
  · simp only [if_neg hoptions]
    cases hroute : Route.ofPath? (Target.path request.target) with
    | none => exact ⟨(Response.bare 404).anyOrigin, rfl, by decide⟩
    | some route =>
      have hmethod : request.method ∉ route.methods := fun hmethod => h route ⟨hroute, hmethod⟩
      simp only [Option.map_some, Option.getD_some, if_neg hmethod]
      refine ⟨_, rfl, ?_⟩
      show 405 ∈ [200, 404, 405]
      decide

/-- Serving a request leads to the state that its operation leads to. -/
lemma serve_state : (serve cache layers time call request s).map (·.2.1) =
    match request.operation? with
    | some operation => cache.work call s operation
    | none => some s := by
  by_cases hasks : ∃ route, request.Asks route
  · obtain ⟨route, hasks⟩ := hasks
    rw [serve_of_asks hasks, Option.map_map, Request.operation?, hasks.1]
    simp only [if_pos hasks.2]
    exact answer_state route
  · have hnone : request.operation? = none := by
      unfold Request.operation?
      cases hroute : Route.ofPath? (Target.path request.target) with
      | none => rfl
      | some route => exact if_neg fun hmethod => hasks ⟨route, hroute, hmethod⟩
    obtain ⟨response, hserve, -⟩ := serve_of_not_asks (not_exists.1 hasks)
    rw [hserve, hnone]
    rfl

end Server

end LayeredCache
