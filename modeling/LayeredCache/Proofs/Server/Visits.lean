import LayeredCache.Proofs.Server.Handlers
import LayeredCache.Proofs.Server.Requests

/-!
# Requests one after another

A request to a server over a cache that complies with a rule is answered at once, and its answer tells what the
rule has permitted. So it is with requests that come one after another, each on any thread.
-/

namespace LayeredCache

variable {σ α : Type} {cache : Cache σ} {values : Json → Prop} {rule : Rule α} {related : σ → α → Prop}
  {layers : List String}

namespace Server

/-! ## Single requests -/

/-- The answers of routes: to a request, in a state of the cache and of the reference, with the reference
afterwards. -/
inductive Answered (cache : Cache σ) (layers : List String) (rule : Rule α) (request : Request) (s : σ) (a : α) :
    Route → Response → α → Prop
  | unread {refusal} : readBody request.contentType request.body = .error refusal →
    Answered cache layers rule request s a .set refusal a
  | refused {r reason} : readBody request.contentType request.body = .ok r → r.invalid? = some reason →
    Answered cache layers rule request s a .set (.error (.invalidRequest reason)) a
  | stored {r a'} : readBody request.contentType request.body = .ok r → r.invalid? = none →
    rule a (.put r.key r.value) .stored a' → Answered cache layers rule request s a .set (.stored r.key) a'
  | unreadKey {segment refusal} : readKey segment = .error refusal →
    Answered cache layers rule request s a (.get segment) refusal a
  | lookedUp {segment key found a'} : readKey segment = .ok key → rule a (.get key) (.found found) a' →
    Answered cache layers rule request s a (.get segment) (.lookedUp key found) a'
  | unreadDeleted {segment refusal} : readKey segment = .error refusal →
    Answered cache layers rule request s a (.delete segment) refusal a
  | taken {segment key found a'} : readKey segment = .ok key → rule a (.remove key) (.removed found) a' →
    Answered cache layers rule request s a (.delete segment) (.taken key found) a'
  | cleared {id a'} : rule a .clear .cleared a' → Answered cache layers rule request s a .clear (.cleared id) a'
  | reported {n a'} : rule a .size (.counted n) a' → Answered cache layers rule request s a .stats
      (.statistics (cache.id s) ((cache.stats s).getD .none) n layers) a'
  | healthy (time) : Answered cache layers rule request s a .health (.healthy time) a

variable {call : Call} {time : String} {request : Request} {s : σ} {a : α}

lemma Complies.answered (h : Complies cache values rule related) (layers : List String)
    (hread : ∀ r, readBody request.contentType request.body = .ok r → values r.value) (hs : related s a)
    (route : Route) :
    ∃ response s' a', answer cache layers time call request s route = some (response, s', call.now) ∧
      Answered cache layers rule request s a route response a' ∧ related s' a' := by
  cases route with
  | set =>
    rw [answer]
    cases hbody : readBody request.contentType request.body with
    | error refusal => exact ⟨refusal, s, a, rfl, .unread hbody, hs⟩
    | ok r =>
      cases hvalid : r.invalid? with
      | some reason =>
        have hset : Server.set cache call r s = (.error (.invalidRequest reason), s) := by rw [Server.set, hvalid]
        refine ⟨_, s, a, ?_, .refused hbody hvalid, hs⟩
        simp only [answer.now, hset]
      | none =>
        obtain ⟨s', a', hset, hrule, hs'⟩ := h.set call (hread r hbody) hvalid hs
        refine ⟨_, s', a', ?_, .stored hbody hvalid hrule, hs'⟩
        simp only [answer.now, hset]
  | get segment =>
    rw [answer]
    cases hkey : readKey segment with
    | error refusal => exact ⟨refusal, s, a, rfl, .unreadKey hkey, hs⟩
    | ok key =>
      obtain ⟨found, s', a', hget, hrule, hs'⟩ := h.get call key hs
      exact ⟨_, s', a', hget, .lookedUp hkey hrule, hs'⟩
  | delete segment =>
    rw [answer]
    cases hkey : readKey segment with
    | error refusal => exact ⟨refusal, s, a, rfl, .unreadDeleted hkey, hs⟩
    | ok key =>
      obtain ⟨found, s', a', hdelete, hrule, hs'⟩ := h.delete call key hs
      refine ⟨_, s', a', ?_, .taken hkey hrule, hs'⟩
      simp only [answer.now, hdelete]
  | clear =>
    obtain ⟨s', a', hclear, hrule, hs'⟩ := h.clear call hs
    refine ⟨.cleared (cache.id s'), s', a', ?_, .cleared hrule, hs'⟩
    simp only [answer, answer.now, hclear]
  | stats =>
    obtain ⟨n, s', a', hstats, hrule, hs'⟩ := h.stats layers call hs
    refine ⟨_, s', a', ?_, .reported hrule, hs'⟩
    simp only [answer, answer.now, hstats]
  | health => exact ⟨_, s, a, rfl, .healthy time, hs⟩

/-- The answer to any request: that of the route that answers it, as it is sent, or one that does not touch the
cache. -/
inductive Served (cache : Cache σ) (layers : List String) (rule : Rule α) (request : Request) (s : σ) (a : α) :
    Response → α → Prop
  | routed {route response a'} : request.Asks route → Answered cache layers rule request s a route response a' →
    Served cache layers rule request s a (response.sent request) a'
  | unrouted {response} : (∀ route, ¬ request.Asks route) → response.status ∈ [200, 404, 405] →
    Served cache layers rule request s a response a

/-- Every request is answered at once. -/
lemma Complies.served (h : Complies cache values rule related) (layers : List String)
    (hread : ∀ r, readBody request.contentType request.body = .ok r → values r.value) (hs : related s a) :
    ∃ response s' a', serve cache layers time call request s = some (response, s', call.now) ∧
      Served cache layers rule request s a response a' ∧ related s' a' := by
  by_cases hasks : ∃ route, request.Asks route
  · obtain ⟨route, hasks⟩ := hasks
    obtain ⟨response, s', a', hanswer, hanswered, hs'⟩ := h.answered layers hread hs route
    refine ⟨_, s', a', ?_, .routed hasks hanswered, hs'⟩
    rw [serve_of_asks hasks, hanswer]
    rfl
  · obtain ⟨response, hserve, hstatus⟩ := serve_of_not_asks (not_exists.1 hasks)
    exact ⟨response, s, a, hserve, .unrouted (not_exists.1 hasks) hstatus, hs⟩

/-! ## Many requests -/

/-- A request that comes at an instant, at a time of day, and is served on a thread. -/
structure Visit where
  thread : Nat
  now : Nat
  time : String
  request : Request

/-- A request with its answer. -/
structure Exchange where
  request : Request
  response : Response

/-- Serves requests one after another. There are no answers if one of them waits forever. -/
def serveAll (cache : Cache σ) (layers : List String) : List Visit → σ → Option (List Exchange × σ)
  | [], s => some ([], s)
  | visit :: visits, s =>
    match serve cache layers visit.time (.at visit.thread visit.now) visit.request s with
    | none => none
    | some (response, s, _) =>
      (serveAll cache layers visits s).map fun (exchanges, s) => (⟨visit.request, response⟩ :: exchanges, s)

/-- What exchanges may do to a reference, by those before them, the latest one first. -/
abbrev Protocol (α : Type) := List Exchange → α → Exchange → α → Prop

/-- After the exchanges of the log, the others follow the protocol, one after another. -/
inductive Follows (protocol : Protocol α) : List Exchange → α → List Exchange → Prop
  | done (log a) : Follows protocol log a []
  | next {log a exchange a' exchanges} : protocol log a exchange a' →
    Follows protocol (exchange :: log) a' exchanges → Follows protocol log a (exchange :: exchanges)

lemma Follows.forall {protocol : Protocol α} {log : List Exchange} {exchanges : List Exchange} {p : Exchange → Prop}
    (h : Follows protocol log a exchanges)
    (hprotocol : ∀ {log a exchange a'}, protocol log a exchange a' → p exchange) :
    ∀ exchange ∈ exchanges, p exchange := by
  induction h with
  | done => exact List.forall_mem_nil _
  | next hfirst _ ih => exact List.forall_mem_cons.2 ⟨hprotocol hfirst, ih⟩

/-- If every request is answered by the protocol, then all of them are. -/
theorem serveAll_follows (protocol : Protocol α) (related : List Exchange → σ → α → Prop)
    (hserve : ∀ {log s a} time call request, related log s a → ∃ response s' a',
      serve cache layers time call request s = some (response, s', call.now) ∧
        protocol log a ⟨request, response⟩ a' ∧ related (⟨request, response⟩ :: log) s' a')
    (visits : List Visit) (log : List Exchange) (hs : related log s a) :
    ∃ exchanges s', serveAll cache layers visits s = some (exchanges, s') ∧ Follows protocol log a exchanges := by
  induction visits generalizing log s a with
  | nil => exact ⟨[], s, rfl, .done log a⟩
  | cons visit visits ih =>
    obtain ⟨response, s', a', hfirst, hprotocol, hs'⟩ :=
      hserve visit.time (.at visit.thread visit.now) visit.request hs
    obtain ⟨exchanges, last, hrest, hfollows⟩ := ih _ hs'
    refine ⟨⟨visit.request, response⟩ :: exchanges, last, ?_, .next hprotocol hfollows⟩
    simp only [serveAll, hfirst, hrest]
    rfl

end Server

end LayeredCache
