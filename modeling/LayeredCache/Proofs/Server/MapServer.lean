import LayeredCache.Proofs.Assembly.BoundedStack
import LayeredCache.Proofs.Assembly.ChainViews
import LayeredCache.Proofs.Assembly.FromSettings
import LayeredCache.Proofs.Json.Reading
import LayeredCache.Proofs.Layer.MapRule
import LayeredCache.Proofs.Server.Visits

/-!
# The server is a bounded map

Settings that ask for the perpetual storage, for at most one layer that evicts and for no interval are those of a
bounded map: whatever requests come, one after another, on any threads, each is answered as the map tells, and the
statistics count the answers so far (`Settings.serves_boundedMap`). Values that are kept as texts come back as what
is read from their texts, which need not be the same floating-point numbers (`Settings.serves_neighbour`).
-/

namespace LayeredCache

open SetRequest (valueDepth)

/-! ## Exchanges with a map -/

namespace Server

/-- The exchange was a lookup of a key. -/
def Exchange.isLookup (exchange : Exchange) : Bool :=
  match Route.ofPath? (Target.path exchange.request.target) with
  | some (.get segment) => decide (exchange.request.method ∈ (Route.get segment).methods)
  | _ => false

/-- How many lookups were answered with a value, and how many with the status that there is none. -/
def tally (log : List Exchange) : Stats :=
  ⟨log.countP fun exchange => exchange.isLookup && exchange.response.status == 200,
    log.countP fun exchange => exchange.isLookup && exchange.response.status == 404⟩

section

variable (texts : Bool) (policy : Eviction) (capacity : Nat) (id : String) (layers : List String)

/-- How a bounded map is served: which exchanges there may be after those of the log, and what becomes of the map.
With `texts`, the values are kept as texts. -/
inductive ServesMap (log : List Exchange) (b : BoundedMap Json) (exchange : Exchange) : BoundedMap Json → Prop
  | unread {refusal} : exchange.request.Asks .set →
    readBody exchange.request.contentType exchange.request.body = .error refusal →
    exchange.response.status = refusal.status → ServesMap log b exchange b
  | refused {r} : exchange.request.Asks .set →
    readBody exchange.request.contentType exchange.request.body = .ok r →
    ¬(1 ≤ r.key.utf8ByteSize ∧ r.key.utf8ByteSize ≤ 256) →
    exchange.response.status = 400 → ServesMap log b exchange b
  | stored {r} : exchange.request.Asks .set →
    readBody exchange.request.contentType exchange.request.body = .ok r →
    1 ≤ r.key.utf8ByteSize ∧ r.key.utf8ByteSize ≤ 256 →
    exchange.response.status = 200 → ServesMap log b exchange (b.put policy capacity r.key r.value)
  | found {segment key value v b'} : exchange.request.Asks (.get segment) → readKey segment = .ok key →
    b.get policy key = (some value, b') → value.HandedBack texts v → exchange.response.status = 200 →
    (exchange.request.method = "GET" → exchange.response.body = (Response.found key v).body) →
    (exchange.request.method = "GET" → value.FloatsReadBack →
      Json.read exchange.response.body = .ok (.object [("key", .string key), ("value", value)])) →
    ServesMap log b exchange b'
  | missing {segment key} : exchange.request.Asks (.get segment) → readKey segment = .ok key →
    b.find? key = none → exchange.response.status = 404 → ServesMap log b exchange b
  | removed {segment key} : exchange.request.Asks (.delete segment) → readKey segment = .ok key →
    (b.find? key).isSome → exchange.response.status = 200 → ServesMap log b exchange (b.erase key)
  | absent {segment key} : exchange.request.Asks (.delete segment) → readKey segment = .ok key →
    b.find? key = none → exchange.response.status = 404 → ServesMap log b exchange b
  | unreadKey {segment refusal} : exchange.request.Asks (.get segment) ∨ exchange.request.Asks (.delete segment) →
    readKey segment = .error refusal → exchange.response.status = 400 → ServesMap log b exchange b
  | cleared : exchange.request.Asks .clear → exchange.response.status = 200 → ServesMap log b exchange .empty
  | reported : exchange.request.Asks .stats → exchange.response.status = 200 →
    (exchange.request.method = "GET" →
      exchange.response.body = (Response.statistics id (tally log) b.slots.length layers).body) →
    ServesMap log b exchange b
  | other : (∀ route, exchange.request.Asks route → route = .health) → ServesMap log b exchange b

end

/-! ## Counts -/

section

variable {request : Request} {response : Response} {log : List Exchange} {segment : List Char}

lemma isLookup_get (h : request.Asks (.get segment)) : Exchange.isLookup ⟨request, response⟩ = true := by
  simp only [Exchange.isLookup, h.1]
  exact decide_eq_true h.2

lemma isLookup_of_asks {route : Route} (h : request.Asks route) (hroute : ∀ segment, route ≠ .get segment) :
    Exchange.isLookup ⟨request, response⟩ = false := by
  simp only [Exchange.isLookup, h.1]
  cases route with
  | get segment => exact absurd rfl (hroute segment)
  | _ => rfl

lemma isLookup_of_not_asks (h : ∀ route, ¬request.Asks route) : Exchange.isLookup ⟨request, response⟩ = false := by
  unfold Exchange.isLookup
  split
  · rename_i segment hpath
    exact decide_eq_false fun hmethod => h _ ⟨hpath, hmethod⟩
  · rfl

/-- Nothing but lookups counts. -/
lemma tally_of_not_isLookup {exchange : Exchange} (h : exchange.isLookup = false) :
    tally (exchange :: log) = tally log := by
  simp [tally, h]

lemma tally_of_asks {route : Route} (h : request.Asks route) (hroute : ∀ segment, route ≠ .get segment) :
    tally (⟨request, response⟩ :: log) = tally log :=
  tally_of_not_isLookup (isLookup_of_asks h hroute)

lemma tally_found (h : request.Asks (.get segment)) (hstatus : response.status = 200) :
    tally (⟨request, response⟩ :: log) = (tally log).record true := by
  simp [tally, isLookup_get h, hstatus, Stats.record]

lemma tally_missing (h : request.Asks (.get segment)) (hstatus : response.status = 404) :
    tally (⟨request, response⟩ :: log) = (tally log).record false := by
  simp [tally, isLookup_get h, hstatus, Stats.record]

lemma tally_unread (h : request.Asks (.get segment)) (hstatus : response.status = 400) :
    tally (⟨request, response⟩ :: log) = tally log := by
  simp [tally, isLookup_get h, hstatus]

end

/-! ## Single exchanges -/

/-- The lengths of keys that can be used. -/
lemma invalid?_eq_none {r : SetRequest} :
    r.invalid? = none ↔ 1 ≤ r.key.utf8ByteSize ∧ r.key.utf8ByteSize ≤ 256 := by
  have hempty : r.key = "" ↔ ¬1 ≤ r.key.utf8ByteSize := by
    rw [← String.utf8ByteSize_eq_zero_iff]
    omega
  unfold SetRequest.invalid? SetRequest.maxKeyLength
  by_cases hkey : r.key = ""
  · simp [hkey]
  · rw [if_neg hkey]
    simp only [hempty, not_not] at hkey
    simp [hkey]

/-- A key with its value is no deeper than a request for it. -/
lemma read_found (key : String) {value : Json} (hvalue : value.Bounded valueDepth) (hback : value.FloatsReadBack) :
    Json.read (Response.found key value).body = .ok (.object [("key", .string key), ("value", value)]) := by
  have hsorted : Fields.Ascending [("key", Json.string key), ("value", value)] :=
    List.pairwise_pair.2 (show "key" < "value" by decide)
  refine Json.read_print ⟨⟨hsorted, trivial, hvalue.1, trivial⟩, ?_, trivial, hback, trivial⟩
  -- the object is one level more
  have hdepth : value.depth + 1 ≤ Json.depthLimit := Nat.succ_le_succ hvalue.2
  simp only [Json.depth, Json.depthFields]
  omega

variable {σ : Type} {cache : Cache σ} {s : σ} {texts : Bool} {policy : Eviction} {capacity : Nat} {id : String}
  {layers : List String} {log : List Exchange} {b : BoundedMap Json} {a' : BoundedMap Json × Stats}
  {request : Request} {route : Route} {response : Response}

/-- What a route answers by the rule of a bounded map with counted lookups is what a server of the map answers, and
the counts are those of its answers. -/
lemma Answered.servesMap (hasks : request.Asks route)
    (h : Answered cache layers (BoundedMap.rule texts policy capacity).counted request s (b, tally log) route
      response a')
    (hid : cache.id s = id) (hstats : cache.stats s = some (tally log)) (hall : b.All (Json.Bounded valueDepth)) :
    ServesMap texts policy capacity id layers log b ⟨request, response.sent request⟩ a'.1 ∧
      a'.2 = tally (⟨request, response.sent request⟩ :: log) := by
  have hstatus := status_sent request response
  cases h with
  | unread hbody => exact ⟨.unread hasks hbody hstatus, (tally_of_asks hasks (by simp)).symm⟩
  | refused hbody hinvalid =>
    refine ⟨.refused hasks hbody (fun hkey => ?_) hstatus, (tally_of_asks hasks (by simp)).symm⟩
    rw [invalid?_eq_none.2 hkey] at hinvalid
    cases hinvalid
  | stored hbody hvalid hrule =>
    obtain ⟨⟨-, hput⟩, hcounts⟩ := hrule
    rw [hput, hcounts]
    exact ⟨.stored hasks hbody (invalid?_eq_none.1 hvalid) hstatus, (tally_of_asks hasks (by simp)).symm⟩
  | unreadKey hkey =>
    rw [status_of_readKey hkey] at hstatus
    exact ⟨.unreadKey (.inl hasks) hkey hstatus, (tally_unread hasks hstatus).symm⟩
  | lookedUp hkey hrule =>
    rename_i segment key found
    obtain ⟨⟨hback, hget⟩, hcounts⟩ := hrule
    change Option.Rel _ (b.get policy key).1 found at hback
    change a'.1 = (b.get policy key).2 at hget
    generalize hvalue : (b.get policy key).1 = value? at hback
    cases hback with
    | none =>
      have hnone : b.find? key = none := Option.map_eq_none_iff.1 (BoundedMap.get_fst.symm.trans hvalue)
      have hsame : a'.1 = b := by rw [hget, BoundedMap.get, hnone]
      rw [hsame, hcounts]
      exact ⟨.missing hasks hkey hnone hstatus, (tally_missing hasks hstatus).symm⟩
    | some hback =>
      rename_i value v
      have hbounded := hall.found (BoundedMap.get_fst.symm.trans hvalue)
      rw [hcounts]
      refine ⟨.found hasks hkey (Prod.ext hvalue hget.symm) hback hstatus (fun hmethod => body_sent hmethod _)
        fun hmethod hfloats => ?_, (tally_found hasks hstatus).symm⟩
      obtain rfl := hback.eq (SetRequest.shallow_of_bounded hbounded) hfloats
      rw [body_sent hmethod]
      exact read_found key hbounded hfloats
  | unreadDeleted hkey =>
    rw [status_of_readKey hkey] at hstatus
    exact ⟨.unreadKey (.inr hasks) hkey hstatus, (tally_of_asks hasks (by simp)).symm⟩
  | taken hkey hrule =>
    rename_i segment key found
    obtain ⟨⟨hback, hremove⟩, hcounts⟩ := hrule
    change Option.Rel _ ((b.find? key).map Slot.value) found at hback
    change a'.1 = b.erase key at hremove
    refine ⟨?_, hcounts.trans (tally_of_asks hasks (by simp)).symm⟩
    cases hfind : b.find? key with
    | none =>
      rw [hfind] at hback
      cases hback
      rw [hremove, BoundedMap.erase_of_find?_eq_none hfind]
      exact .absent hasks hkey hfind hstatus
    | some slot =>
      rw [hfind] at hback
      cases hback
      rw [hremove]
      exact .removed hasks hkey (hfind ▸ rfl) hstatus
  | cleared hrule =>
    obtain ⟨⟨-, hclear⟩, hcounts⟩ := hrule
    rw [hclear, hcounts]
    exact ⟨.cleared hasks hstatus, (tally_of_asks hasks (by simp)).symm⟩
  | reported hrule =>
    obtain ⟨⟨hsize, hsame⟩, hcounts⟩ := hrule
    obtain rfl := Answer.counted.inj hsize
    rw [hsame, hcounts]
    refine ⟨.reported hasks hstatus fun hmethod => ?_, (tally_of_asks hasks (by simp)).symm⟩
    rw [body_sent hmethod, hid, hstats]
    rfl
  | healthy time =>
    refine ⟨.other fun other hother => ?_, (tally_of_asks hasks (by simp)).symm⟩
    exact Option.some.inj (hother.1.symm.trans hasks.1)

/-- So it is with any request. -/
lemma Served.servesMap
    (h : Served cache layers (BoundedMap.rule texts policy capacity).counted request s (b, tally log) response a')
    (hid : cache.id s = id) (hstats : cache.stats s = some (tally log)) (hall : b.All (Json.Bounded valueDepth)) :
    ServesMap texts policy capacity id layers log b ⟨request, response⟩ a'.1 ∧
      a'.2 = tally (⟨request, response⟩ :: log) := by
  cases h with
  | routed hasks hanswered => exact hanswered.servesMap hasks hid hstats hall
  | unrouted hnone _ =>
    exact ⟨.other fun route hasks => absurd hasks (hnone route),
      (tally_of_not_isLookup (isLookup_of_not_asks hnone)).symm⟩

/-! ## Many exchanges -/

/-- If the cache complies with the rule, and its id and statistics can be seen, then the map is served. -/
lemma Complies.serves_map {related : σ → BoundedMap Json × Stats → Prop}
    (h : Complies cache (Json.Bounded valueDepth) (BoundedMap.rule texts policy capacity).counted related)
    (hseen : ∀ s a, related s a →
      cache.id s = id ∧ cache.stats s = some a.2 ∧ a.1.All (Json.Bounded valueDepth))
    (layers : List String) (visits : List Visit) (hs : related s (.empty, .none)) :
    ∃ exchanges s', serveAll cache layers visits s = some (exchanges, s') ∧
      Follows (ServesMap texts policy capacity id layers) [] .empty exchanges := by
  -- the counts are always those of the exchanges so far
  refine serveAll_follows _ (fun log s b => related s (b, tally log)) (fun time call request hs => ?_) visits [] hs
  obtain ⟨hid, hstats, hall⟩ := hseen _ _ hs
  obtain ⟨response, s', a', hserve, hserved, hs'⟩ :=
    h.served layers (fun r hr => roomy_readBody hr) hs
  obtain ⟨hexchange, hcounts⟩ := hserved.servesMap hid hstats hall
  refine ⟨response, s', a'.1, hserve, hexchange, ?_⟩
  rw [← hcounts]
  exact hs'

end Server

/-! ## The cache that is served -/

section

variable {E : Extension} {values : Json → Prop}

namespace Chain

/-- The layers of the map: the one that evicts, and serialization if texts are kept, outermost first. -/
def mapLayers (texts : Bool) (policy : Eviction) (capacity : Capacity) : List (Layer E) :=
  (if texts then [⟨.serialized, Serialized.mk⟩] else []) ++ [policy.layer capacity]

/-- The layer that evicts matches the map, with the values as they are or in any other form. -/
lemma exists_matches (policy : Eviction) (capacity : Capacity) (id : String) (code : Json → Json) :
    ∃ related, Matches (fun _ => True) (cache (E := E) .perpetual [(policy.layer capacity).kind])
        (BoundedMap.ideal policy capacity.count) code related ∧
      related (ofLayers (.empty id) [policy.layer capacity]) .empty := by
  cases policy with
  | leastRecent => exact Lru.follows capacity (Perpetual.follows code rfl)
  | firstIn => exact Fifo.follows capacity (Perpetual.follows code rfl)

/-- The layers of the map comply with its rule. -/
lemma exists_complies (texts : Bool) (policy : Eviction) (capacity : Capacity) (id : String)
    (hshallow : ∀ v, values v → v.Shallow) :
    ∃ related, (cache (E := E) .perpetual ((mapLayers texts policy capacity).map Layer.kind)).Complies values
        (BoundedMap.rule texts policy capacity.count) related ∧
      related (ofLayers (.empty id) (mapLayers texts policy capacity)) .empty ∧
      ∀ s b, related s b → b.All values := by
  have hrelease (call : Call) (key : String) (s) :
      (cache (E := E) .perpetual [(policy.layer capacity).kind]).release call key s = s := by
    cases policy <;> rfl
  cases texts with
  | false =>
    obtain ⟨related, hmatches, hfirst⟩ := exists_matches policy capacity id (fun v => v)
    exact ⟨_, hmatches.complies hrelease, ⟨hfirst, .empty⟩, fun s b hs => hs.2⟩
  | true =>
    obtain ⟨related, hmatches, hfirst⟩ := exists_matches policy capacity id Serialized.encode
    exact ⟨_, Serialized.complies hmatches hrelease hshallow, ⟨hfirst, .empty⟩, fun s b hs => hs.2⟩

/-- No operation changes the id. -/
lemma always_id (id : String) (layers : List (Layer E))
    (hbuiltIn : ∀ layer ∈ layers, ∀ added, layer.kind ≠ .added added) :
    Always (fun _ => True) (.empty id) layers fun s => (cache .perpetual _).id s = id := by
  induction layers with
  | nil =>
    refine ⟨fun p => Perpetual.id p = id, ?_, rfl, fun _ hs => hs⟩
    exact ⟨fun _ _ _ _ hs => hs, fun _ _ hs => hs, fun _ _ hs => hs, fun _ hs => hs, fun _ hs => hs,
      fun _ _ hs => hs⟩
  | cons layer layers ih =>
    obtain ⟨hlayer, hlayers⟩ := List.forall_mem_cons.1 hbuiltIn
    refine ((ih hlayers).cons hlayer fun _ _ => trivial).mono fun s hs => ?_
    obtain ⟨kind, own⟩ := layer
    cases kind with
    | added added => exact absurd rfl (hlayer added)
    | _ => exact hs

/-- The layers of the map, and around them those that every cache has. -/
def countedLayers (texts : Bool) (policy : Eviction) (capacity : Capacity) : List (Layer E) :=
  ⟨.synchronized, Synchronized.free⟩ :: ⟨.logging, Logging.empty⟩ :: mapLayers texts policy capacity

lemma exists_counted (texts : Bool) (policy : Eviction) (capacity : Capacity) (id : String)
    (hshallow : ∀ v, values v → v.Shallow) :
    ∃ related, (cache (E := E) .perpetual ((countedLayers texts policy capacity).map Layer.kind)).Complies values
        (BoundedMap.rule texts policy capacity.count).counted related ∧
      related (ofLayers (.empty id) (countedLayers texts policy capacity)) (.empty, .none) ∧
      ∀ s a, related s a → (cache .perpetual _).id s = id ∧ (cache .perpetual _).stats s = some a.2 ∧
        a.1.All values := by
  obtain ⟨related, hcomplies, hfirst, hall⟩ := exists_complies (E := E) texts policy capacity id hshallow
  have hbuiltIn : ∀ layer ∈ countedLayers (E := E) texts policy capacity, ∀ added, layer.kind ≠ .added added := by
    cases texts <;> cases policy <;> simp [countedLayers, mapLayers, Eviction.layer]
  obtain ⟨kept, hkeeps, hkept, hid⟩ := always_id id _ hbuiltIn
  have hcounted := (Synchronized.complies (Logging.complies hcomplies)).and (hkeeps.mono fun _ _ => trivial)
  refine ⟨_, hcounted, ⟨⟨rfl, rfl, hfirst⟩, hkept⟩, ?_⟩
  rintro s a ⟨⟨-, hcounts, hrelated⟩, hs⟩
  exact ⟨hid s hs, congrArg some hcounts, hall _ _ hrelated⟩

end Chain

namespace Spec

variable {spec : Spec E} {start : Nat} {policy : Eviction} {stack : Stack E}

/-- Without an interval, and with one custom layer, which evicts, a built cache has the layers of the map, and
perhaps blocking around them. -/
lemma exists_countedLayers (hbuild : spec.build start = .ok stack) (hperpetual : spec.storage.isPerpetual = true)
    (hkinds : spec.effectiveDecorators.map LayerType.decorator? = [some policy.kind])
    (hinterval : spec.clearInterval = none) :
    ∃ capacity, spec.evictionCapacity true = .ok capacity ∧
      (stack = .ofLayers (.empty spec.id) (Chain.countedLayers spec.readWrite policy capacity) ∨
        stack = .ofLayers (.empty spec.id) (⟨.blocking, Blocking.empty spec.blockingTimeout⟩ ::
          Chain.countedLayers spec.readWrite policy capacity)) := by
  obtain ⟨-, -, layers, layers', hlayers, hsized, rfl⟩ := (build_eq_ok hperpetual).1 hbuild
  have hmap : layers.map Layer.kind = [] ++ policy.kind :: [] :=
    List.map_injective_iff.2 (Option.some_injective _) (hlayers.map_kind.symm.trans hkinds)
  obtain ⟨capacity, within, around, hcapacity, rfl, hwithin, haround, -⟩ :=
    hsized.split_fresh hlayers.fresh hmap (List.forall_mem_nil _)
  obtain rfl := List.map_eq_nil_iff.1 hwithin
  obtain rfl := List.map_eq_nil_iff.1 haround
  have hlocked : spec.lockedLayers start [policy.layer capacity] =
      Chain.countedLayers spec.readWrite policy capacity := by
    cases hreadWrite : spec.readWrite <;>
      simp [lockedLayers, syncedLayers, scheduledLayers, Chain.countedLayers, Chain.mapLayers, hinterval, hreadWrite]
  refine ⟨capacity, hcapacity, ?_⟩
  rw [Stack.wrapAll_base, ← hlocked]
  exact spec.ofLayers_standardLayers start _ _

/-- A server of such a cache serves the map. -/
lemma serves_map (hbuild : spec.build start = .ok stack) (hperpetual : spec.storage.isPerpetual = true)
    (hkinds : spec.effectiveDecorators.map LayerType.decorator? = [some policy.kind])
    (hinterval : spec.clearInterval = none) :
    ∃ capacity, spec.evictionCapacity true = .ok capacity ∧ ∀ layers visits, ∃ exchanges s,
      Server.serveAll stack.cache layers visits stack.state = some (exchanges, s) ∧
        Server.Follows (Server.ServesMap spec.readWrite policy capacity.count spec.id layers) [] .empty
          exchanges := by
  obtain ⟨capacity, hcapacity, hstack⟩ := exists_countedLayers hbuild hperpetual hkinds hinterval
  obtain ⟨related, hcomplies, hfirst, hseen⟩ :=
    Chain.exists_counted (E := E) spec.readWrite policy capacity spec.id fun _ => SetRequest.shallow_of_bounded
  refine ⟨capacity, hcapacity, fun layers visits => ?_⟩
  rcases hstack with rfl | rfl
  · exact hcomplies.server.serves_map hseen layers visits hfirst
  · exact (Blocking.server_complies hcomplies).serves_map (fun s a hs => hseen s.2 a hs.2) layers visits ⟨rfl, hfirst⟩

end Spec

/-! ## Settings -/

/-- The policy that a short name stands for; the case of ASCII letters does not count. -/
def Eviction.ofAlias? (shortName : String) : Option Eviction :=
  match String.ofList (shortName.toList.map Char.toUpper) with
  | "LRU" => some .leastRecent
  | "FIFO" => some .firstIn
  | _ => none

lemma Eviction.ofAlias?_eq_some {shortName : String} {policy : Eviction} (h : ofAlias? shortName = some policy) :
    LayerType.ofAlias? (E := E) shortName = some (.decorator policy.kind) := by
  unfold ofAlias? at h
  unfold LayerType.ofAlias?
  split at h
  · rename_i hname
    obtain rfl := Option.some.inj h
    rw [hname]
    rfl
  · rename_i hname
    obtain rfl := Option.some.inj h
    rw [hname]
    rfl
  · cases h

namespace Settings

variable {settings : Settings} {spec : Spec E} {start : Nat} {policy : Eviction}

/-- The policy by which settings evict: the one that they name, or else by use. -/
def policy? (settings : Settings) : Option Eviction :=
  match settings.eviction with
  | none => some .leastRecent
  | some shortName => Eviction.ofAlias? shortName

/-- The layer that evicts is the only custom one. -/
lemma effectiveDecorators_of_spec (hspec : settings.spec = .ok spec) (hstorage : settings.implementation = none)
    (hpolicy : settings.policy? = some policy) :
    spec.effectiveDecorators.map LayerType.decorator? = [some policy.kind] := by
  obtain rfl := eq_of_spec hspec
  unfold policy? at hpolicy
  rw [Spec.effectiveDecorators, hstorage]
  cases heviction : settings.eviction with
  | none =>
    rw [heviction] at hpolicy
    obtain rfl := Option.some.inj hpolicy
    rfl
  | some shortName =>
    rw [heviction] at hpolicy
    rw [Option.bind_some, Eviction.ofAlias?_eq_some hpolicy]
    rfl

lemma isPerpetual_of_spec (hspec : settings.spec = .ok spec) (hstorage : settings.implementation = none) :
    spec.storage.isPerpetual = true := by
  obtain rfl := eq_of_spec hspec
  rw [Spec.storage, hstorage]
  rfl

/-- Whatever requests come to a server that has started with such settings, one after another, on any threads: each
is answered as the bounded map tells, and the statistics are those of the answers before. -/
theorem serves_boundedMap {stack : Stack E} (hspec : settings.spec = .ok spec) (hbuild : spec.build start = .ok stack)
    (hstorage : settings.implementation = none) (hpolicy : settings.policy? = some policy)
    (hinterval : settings.flushInterval = none) :
    ∃ capacity, spec.evictionCapacity true = .ok capacity ∧ ∀ visits, ∃ exchanges s,
      Server.serveAll stack.cache stack.layers visits stack.state = some (exchanges, s) ∧
        Server.Follows
          (Server.ServesMap settings.readWrite policy capacity.count settings.cacheId stack.layers)
          [] .empty exchanges := by
  have hkinds := effectiveDecorators_of_spec hspec hstorage hpolicy
  have hperpetual := isPerpetual_of_spec hspec hstorage
  obtain rfl := eq_of_spec hspec
  obtain ⟨capacity, hcapacity, hserves⟩ := Spec.serves_map hbuild hperpetual hkinds (Option.map_eq_none_iff.2 hinterval)
  exact ⟨capacity, hcapacity, hserves stack.layers⟩

end Settings

end

namespace Settings

open Server

/-- Texts of at most two values are kept, and lookups that find nothing keep others waiting. -/
def keepsTwo : Settings :=
  { standard with
    eviction := some "lru"
    size := some 2
    blocking := true }

/-- A value is put by one thread, and two others look for values. -/
def putAndLookUp : List Visit :=
  [⟨1, 1, "noon", ⟨"PUT", "/set", some "application/json", "[\"k\", [1]]".toUTF8.toList⟩⟩,
    ⟨2, 2, "noon", ⟨"GET", "/get/k", none, []⟩⟩,
    ⟨2, 3, "noon", ⟨"GET", "/get/other", none, []⟩⟩,
    ⟨3, 4, "noon", ⟨"GET", "/get/other", none, []⟩⟩,
    ⟨1, 5, "noon", ⟨"GET", "/stats", none, []⟩⟩]

/-- They are answered as a map of two keys tells. -/
theorem serves_boundedMap_keepsTwo : ∃ (spec : Spec .nothing) (stack : Stack .nothing),
    keepsTwo.spec = .ok spec ∧ spec.build 0 = .ok stack ∧ keepsTwo.implementation = none ∧
      keepsTwo.policy? = some .leastRecent ∧ keepsTwo.flushInterval = none ∧
      ∃ exchanges s, serveAll stack.cache stack.layers putAndLookUp stack.state = some (exchanges, s) ∧
        Follows (ServesMap true .leastRecent 2 "default" stack.layers) [] .empty exchanges := by
  let spec : Spec .nothing :=
    { Spec.new "default" with
      decorators := [.decorator .lru]
      size := some 2
      readWrite := true
      blocking := true }
  have hspec : keepsTwo.spec = .ok spec := rfl
  obtain ⟨stack, hbuild⟩ : ∃ stack, spec.build 0 = .ok stack := ⟨_, rfl⟩
  have hpolicy : keepsTwo.policy? = some .leastRecent := rfl
  obtain ⟨capacity, hcapacity, hserves⟩ := serves_boundedMap hspec hbuild rfl hpolicy rfl
  have htwo : spec.evictionCapacity true = .ok ⟨2, by decide⟩ := rfl
  obtain rfl := Except.ok.inj (htwo.symm.trans hcapacity)
  exact ⟨spec, stack, hspec, hbuild, rfl, rfl, rfl, hserves putAndLookUp⟩

/-! ## A double that becomes its neighbour -/

/-- A double and its neighbours. -/
def tiny (m : Nat) : Json :=
  .float (.finite false m (-133))

/-- A request to put one of them, and a lookup. -/
def putTiny : Request :=
  ⟨"PUT", "/set", some "application/json", "[\"k\",8e-25]".toUTF8.toList⟩

def getTiny : Request :=
  ⟨"GET", "/get/k", none, []⟩

lemma readBody_putTiny :
    readBody putTiny.contentType putTiny.body = .ok ⟨"k", tiny 8711228593176024⟩ := by
  have hjson : MediaType.isJson "application/json" = true := by decide +kernel
  have hlimit : ¬ bodyLimit < "[\"k\",8e-25]".toUTF8.toList.length := by decide +kernel
  have hdecode : Text.decode "[\"k\",8e-25]".toUTF8.toList = Text.pieces "[\"k\",8e-25]" := by decide +kernel
  have hstored : SetRequest.readStored (Text.pieces "8e-25]") = .ok (tiny 8711228593176024, [.char ']']) := by
    have hvalue : (Decimal.mk 8 (-25)).toBinaryStepwise = .finite false 8711228593176024 (-133) := by decide +kernel
    rw [SetRequest.readStored, Json.fuelFor, Json.readValue]
    change Json.floatOf false ⟨8, -25⟩ [.char ']'] = _
    rw [Json.floatOf, hvalue, tiny]
  have harray : SetRequest.readPieces (Text.pieces "[\"k\",8e-25]") =
      ((SetRequest.readStored (Text.pieces "8e-25]")).mapError (Json.Fault.within (.index 1)) >>= fun read =>
        (SetRequest.endArray read.2).map fun rest => (⟨"k", read.1⟩, rest)) := rfl
  simp only [readBody, putTiny, Option.map_some, hjson, Option.getD_some, Bool.not_true, Bool.false_eq_true, if_false,
    hlimit, hdecode, harray, hstored]
  rfl

/-- Its text is read as another one, -/
lemma read_print_tiny : Json.read (tiny 8711228593176024).print = .ok (tiny 8711228593176023) := by
  have hrender : Json.render (tiny 8711228593176024) = "7.999999999999999e-25".toList := by decide +kernel
  have hvalue : (Decimal.mk 7999999999999999 (-40)).toBinaryStepwise = .finite false 8711228593176023 (-133) := by
    decide +kernel
  refine Json.read_print_of_readValue ?_
  rw [hrender, Json.fuelFor, Json.readValue]
  change Json.floatOf false ⟨7999999999999999, -40⟩ [] = _
  rw [Json.floatOf, hvalue]
  rfl

/-- and the text of that one is read as itself. -/
lemma floatsReadBack_tiny : (tiny 8711228593176023).FloatsReadBack := by
  have hrender : Json.render (tiny 8711228593176023) = "7.9999999999999985e-25".toList := by decide +kernel
  have hvalue : (Decimal.mk 79999999999999985 (-41)).toBinaryStepwise = .finite false 8711228593176023 (-133) := by
    decide +kernel
  refine Json.read_print_of_readValue (v := tiny 8711228593176023) ?_
  rw [hrender, Json.fuelFor, Json.readValue]
  change Json.floatOf false ⟨79999999999999985, -41⟩ [] = _
  rw [Json.floatOf, hvalue]

/-- The layers of the standard settings, and their operations. -/
def standardLayers : List (Layer .nothing) :=
  Chain.countedLayers true .leastRecent .standard

abbrev standardCache : Cache (Chain .perpetual (standardLayers.map Layer.kind)) :=
  Chain.cache .perpetual _

/-- Their state after the double was put. -/
def keepsTiny : Chain .perpetual (standardLayers.map Layer.kind) :=
  (standardCache.put (.at 1 1) "k" (tiny 8711228593176024) (Chain.ofLayers (.empty "default") standardLayers)).2

lemma serve_putTiny (layers : List String) :
    serve standardCache layers "noon" (.at 1 1) putTiny (Chain.ofLayers (.empty "default") standardLayers) =
      some ((Response.stored "k").sent putTiny, keepsTiny, 1) := by
  have hasks : putTiny.Asks .set := ⟨by decide +kernel, by decide⟩
  rw [serve_of_asks hasks, answer, readBody_putTiny]
  rfl

lemma serve_getTiny (layers : List String) : ∃ s, serve standardCache layers "noon" (.at 2 2) getTiny keepsTiny =
    some ((Response.found "k" (tiny 8711228593176023)).sent getTiny, s, 2) := by
  have hasks : getTiny.Asks (.get ['k']) := ⟨by decide +kernel, by decide⟩
  have htext : Target.segmentText? ['k'] = some "k" := by decide +kernel
  have hlookup : (standardCache.get (.at 2 2) "k" keepsTiny).alone (Call.at 2 2).now =
      let (outcome, counted) := Logging.empty.record
        (Serialized.decodeFound "default" (.ok (some (Serialized.encode (tiny 8711228593176024)))))
      some (outcome, (Synchronized.free, counted, keepsTiny.2.2), 2) := rfl
  rw [Serialized.decodeFound_of_read "default" read_print_tiny] at hlookup
  rw [serve_of_asks hasks, answer, readKey, htext]
  dsimp only
  rw [Server.get, hlookup]
  exact ⟨_, rfl⟩

/-- A server with the standard settings takes a double, and hands another one back. -/
theorem serves_neighbour : ∃ (spec : Spec .nothing) (stack : Stack .nothing) (v w : Json) (s : _),
    standard.spec = .ok spec ∧ spec.build 0 = .ok stack ∧
      serveAll stack.cache stack.layers [⟨1, 1, "noon", putTiny⟩, ⟨2, 2, "noon", getTiny⟩] stack.state =
        some ([⟨putTiny, (Response.stored "k").sent putTiny⟩, ⟨getTiny, (Response.found "k" w).sent getTiny⟩], s) ∧
      readBody putTiny.contentType putTiny.body = .ok ⟨"k", v⟩ ∧
      Json.read (Response.found "k" w).body = .ok (.object [("key", .string "k"), ("value", w)]) ∧ v ≠ w := by
  obtain ⟨s, hget⟩ := serve_getTiny (Stack.ofLayers (.empty "default") standardLayers).layers
  have hbounded : (tiny 8711228593176023).Bounded valueDepth :=
    ⟨⟨by decide, by decide, by decide, .inl (by decide)⟩, by decide⟩
  refine ⟨_, .ofLayers (.empty "default") standardLayers, tiny 8711228593176024, tiny 8711228593176023, s, rfl, rfl,
    ?_, readBody_putTiny, read_found "k" hbounded floatsReadBack_tiny, by simp [tiny]⟩
  have hserved : serveAll standardCache (Stack.ofLayers (.empty "default") standardLayers).layers
      [⟨1, 1, "noon", putTiny⟩, ⟨2, 2, "noon", getTiny⟩] (Chain.ofLayers (.empty "default") standardLayers) =
        some ([⟨putTiny, (Response.stored "k").sent putTiny⟩,
          ⟨getTiny, (Response.found "k" (tiny 8711228593176023)).sent getTiny⟩], s) := by
    simp only [serveAll, serve_putTiny, hget]
    rfl
  exact hserved

end Settings

end LayeredCache
