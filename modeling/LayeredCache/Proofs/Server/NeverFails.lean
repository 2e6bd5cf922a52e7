import LayeredCache.Proofs.Assembly.ChainViews
import LayeredCache.Proofs.Assembly.FromSettings
import LayeredCache.Proofs.Json.Reading
import LayeredCache.Proofs.Server.Visits

/-!
# The server does not fail

Every value that comes with a request is nested less deep than the reader goes, as the request is an object or an
array around it. So what the layers store can be read, and no request is answered with a failure of the server
(`Settings.never_fails`), however many layers serialize.
-/

namespace LayeredCache

variable {σ α : Type} {cache : Cache σ} {rule : Rule α} {layers : List String} {request : Request} {s : σ} {a a' : α}
  {response : Response}

namespace Server

/-! ## Statuses -/

/-- A body that is refused is the fault of the request. -/
lemma status_of_readBody {contentType : Option String} {body : List UInt8}
    (h : readBody contentType body = .error response) : response.status ∈ [400, 413, 415, 422] := by
  have hrefused {status : Nat} {text : String} (hstatus : status ∈ [400, 413, 415, 422])
      (h : (.error (.text status text) : Except Response SetRequest) = .error response) :
      response.status ∈ [400, 413, 415, 422] := Except.error.inj h ▸ hstatus
  unfold readBody at h
  split at h
  · exact hrefused (by decide) h
  · split at h
    · exact hrefused (by decide) h
    · dsimp only at h
      split at h
      · cases h
      · split at h
        · exact hrefused (by decide) h
        · exact hrefused (by decide) h

/-- No route answers that the server has failed. -/
lemma Answered.status_ne {route : Route} (h : Answered cache layers rule request s a route response a') :
    response.status ≠ 500 := by
  cases h with
  | unread hbody =>
    intro heq
    have hmem := status_of_readBody hbody
    rw [heq] at hmem
    exact absurd hmem (by decide)
  | refused => exact nofun
  | stored => exact nofun
  | unreadKey hkey => simp [status_of_readKey hkey]
  | lookedUp =>
    rename_i found _ _
    cases found <;> exact nofun
  | unreadDeleted hkey => simp [status_of_readKey hkey]
  | taken =>
    rename_i found _ _
    cases found <;> exact nofun
  | cleared => exact nofun
  | reported => exact nofun
  | healthy => exact nofun

/-- No request is answered that way. -/
lemma Served.status_ne (h : Served cache layers rule request s a response a') : response.status ≠ 500 := by
  cases h with
  | routed _ hanswered =>
    rw [status_sent]
    exact hanswered.status_ne
  | unrouted _ hstatus =>
    intro heq
    rw [heq] at hstatus
    exact absurd hstatus (by decide)

/-! ## Many requests -/

/-- Over a cache that complies with any rule, no request of many is answered that way. -/
lemma Complies.exists_exchanges {values : Json → Prop} {related : σ → α → Prop}
    (h : Complies cache values rule related) (hread : ∀ r : SetRequest, r.Roomy → values r.value)
    (layers : List String) (visits : List Visit) (hs : related s a) :
    ∃ exchanges s', serveAll cache layers visits s = some (exchanges, s') ∧
      ∀ exchange ∈ exchanges, exchange.response.status ≠ 500 := by
  have hserve {s : σ} {a : α} (time : String) (call : Call) (request : Request) (hs : related s a) :
      ∃ response s' a', serve cache layers time call request s = some (response, s', call.now) ∧
        response.status ≠ 500 ∧ related s' a' := by
    obtain ⟨response, s', a', hserved, hanswered, hs'⟩ :=
      h.served layers (fun r hr => hread r (roomy_readBody hr)) hs
    exact ⟨response, s', a', hserved, hanswered.status_ne, hs'⟩
  obtain ⟨exchanges, s', hall, hfollows⟩ := serveAll_follows (fun _ _ exchange _ => exchange.response.status ≠ 500)
    (fun _ => related) hserve visits [] hs
  exact ⟨exchanges, s', hall, hfollows.forall id⟩

end Server

/-! ## The cache that is served -/

namespace Spec

variable {E : Extension} {spec : Spec E} {start : Nat}

/-- A built cache of built-in layers answers all requests. -/
lemma BuiltIn.exists_server_complies {stack : Stack E} (hbuiltIn : spec.BuiltIn)
    (hbuild : spec.build start = .ok stack) : ∃ related, related stack.state () ∧
      Server.Complies stack.cache Json.Shallow (fun _ _ _ (_ : Unit) => True) related := by
  obtain ⟨custom, -, hnew, hstack⟩ := hbuiltIn.exists_locked hbuild
  obtain ⟨ok, hstores, hfirst⟩ := Chain.exists_stores (p := .empty spec.id) (new_of_mem_lockedLayers hnew)
  have hcomplies := hstores.complies fun value hvalue => Chain.exists_back_form _ hvalue
  have hholds : (Chain.view _).Holds Json.Shallow
      (Chain.ofLayers (.empty spec.id) (spec.lockedLayers start custom)) := by
    intro key stored hstored
    rw [Chain.entry_ofLayers] at hstored
    cases hstored
  rcases hstack with rfl | rfl
  · exact ⟨_, ⟨hfirst, hholds⟩, hcomplies.server⟩
  · exact ⟨_, ⟨rfl, hfirst, hholds⟩, Blocking.server_complies hcomplies⟩

end Spec

namespace Settings

variable {E : Extension} {settings : Settings} {spec : Spec E} {start : Nat}

/-- Whatever the settings of a server that has started, and whatever requests it serves, one after another on any
threads: all of them are answered, and none with a failure of the server. -/
theorem never_fails {stack : Stack E} (hspec : settings.spec = .ok spec) (hbuild : spec.build start = .ok stack)
    (visits : List Server.Visit) : ∃ exchanges s,
      Server.serveAll stack.cache stack.layers visits stack.state = some (exchanges, s) ∧
        ∀ exchange ∈ exchanges, exchange.response.status ≠ 500 := by
  obtain ⟨related, hfirst, hcomplies⟩ := (builtIn_of_spec hspec).exists_server_complies hbuild
  exact hcomplies.exists_exchanges (fun _ hr => SetRequest.shallow_of_bounded hr) stack.layers visits hfirst

/-- Texts of texts are kept, for ten milliseconds, and lookups that find nothing keep others waiting. -/
def serializesTwice : Settings :=
  { standard with
    eviction := some "serialized"
    flushInterval := some 10
    blocking := true }

/-- An array inside an array is stored by one thread, and looked up by another one. -/
def putAndGet : List Server.Visit :=
  [⟨1, 1, "noon", ⟨"PUT", "/set", some "application/json", "[\"k\", [[1]]]".toUTF8.toList⟩⟩,
    ⟨2, 2, "noon", ⟨"GET", "/get/k", none, []⟩⟩]

/-- Neither request fails. -/
theorem never_fails_serializesTwice : ∃ (spec : Spec .nothing) (stack : Stack .nothing),
    serializesTwice.spec = .ok spec ∧ spec.build 0 = .ok stack ∧ ∃ exchanges s,
      Server.serveAll stack.cache stack.layers putAndGet stack.state = some (exchanges, s) ∧
        ∀ exchange ∈ exchanges, exchange.response.status ≠ 500 := by
  let spec : Spec .nothing :=
    { Spec.new "default" with
      decorators := [.decorator .serialized]
      clearInterval := some (10 * nanosPerMilli)
      readWrite := true
      blocking := true }
  have hspec : serializesTwice.spec = .ok spec := rfl
  obtain ⟨stack, hbuild⟩ : ∃ stack, spec.build 0 = .ok stack := ⟨_, rfl⟩
  exact ⟨spec, stack, hspec, hbuild, never_fails hspec hbuild putAndGet⟩

end Settings

end LayeredCache
