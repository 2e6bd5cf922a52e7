import LayeredCache.Cache.Operations
import LayeredCache.Server.MediaType
import LayeredCache.Server.Response
import LayeredCache.Server.SetRequest
import LayeredCache.Server.Target

/-!
# Serving a cache

The paths of the server, the operation on the cache that each stands for, and the answer to its outcome.
-/

namespace LayeredCache

/-- A request, as far as the server looks at it. -/
structure Request where
  method : String
  target : String
  contentType : Option String
  body : List UInt8

/-- What a path stands for; a key is still encoded. -/
inductive Route where
  | set
  | get (key : List Char)
  | delete (key : List Char)
  | clear
  | stats
  | health
  deriving DecidableEq

namespace Route

def ofPath? (path : List Char) : Option Route :=
  match String.ofList path with
  | "/set" => some .set
  | "/clear" => some .clear
  | "/stats" => some .stats
  | "/health" => some .health
  | _ =>
    match Target.segmentAfter? "/get/".toList path with
    | some key => some (.get key)
    | none => (Target.segmentAfter? "/del/".toList path).map .delete

def methods : Route → List String
  | .set => ["PUT"]
  | .get _ => ["GET", "HEAD"]
  | .delete _ => ["DELETE"]
  | .clear => ["DELETE"]
  | .stats => ["GET", "HEAD"]
  | .health => ["GET", "HEAD"]

end Route

namespace Server

/-- The octets of the longest body that is read: two mebibytes. -/
def bodyLimit : Nat := 2097152

/-- The request to store that a body begins with, or the answer that refuses it. What follows the request
is not looked at, but it counts towards the limit. -/
def readBody (contentType : Option String) (body : List UInt8) : Except Response SetRequest :=
  if !(contentType.map MediaType.isJson).getD false then
    .error (.text 415 "Expected request with `Content-Type: application/json`")
  else if bodyLimit < body.length then
    .error (.text 413 "Failed to buffer the request body: length limit exceeded")
  else
    let pieces := Text.decode body
    match SetRequest.readPieces pieces with
    | .ok (request, _) => .ok request
    | .error fault =>
      match fault.flaw with
      | .wrongData _ =>
        .error (.text 422 ("Failed to deserialize the JSON body into the target type: " ++
          fault.locatedMessage pieces))
      | _ =>
        .error (.text 400 ("Failed to parse the request body as JSON: " ++
          fault.locatedMessage pieces))

/-- The key that a segment stands for, or the answer that refuses it. -/
def readKey (segment : List Char) : Except Response String :=
  match Target.segmentText? segment with
  | some key => .ok key
  | none => .error (.text 400 "Invalid URL: Invalid UTF-8 in `key`")

variable {σ : Type}

/-- Stores a value if the key can be used. -/
def set (cache : Cache σ) (call : Call) (request : SetRequest) (s : σ) : Response × σ :=
  match request.invalid? with
  | some reason => (.error (.invalidRequest reason), s)
  | none =>
    match cache.put call request.key request.value s with
    | (.ok (), s) => (.stored request.key, s)
    | (.error e, s) => (.error e, s)

/-- The end of a lookup. A key that was not found is given up: nobody is going to compute its value. -/
def afterGet (cache : Cache σ) (call : Call) (key : String) (outcome : Found) (s : σ) :
    Response × σ :=
  match outcome with
  | .ok (some value) => (.found key value, s)
  | .ok none => (.error (.notFound key), cache.release call key s)
  | .error e => (.error e, s)

/-- Looks a key up while no other thread acts; without an outcome there is no answer. -/
def get (cache : Cache σ) (call : Call) (key : String) (s : σ) : Option (Response × σ × Nat) :=
  ((cache.get call key s).alone call.now).map fun (outcome, s, now) =>
    let (response, s) := afterGet cache { call with now } key outcome s
    (response, s, now)

def delete (cache : Cache σ) (call : Call) (key : String) (s : σ) : Response × σ :=
  match cache.remove call key s with
  | (.ok (some _), s) => (.removed key, s)
  | (.ok none, s) => (.error (.notFound key), s)
  | (.error e, s) => (.error e, s)

def clear (cache : Cache σ) (call : Call) (s : σ) : Response × σ :=
  match cache.clear call s with
  | (.ok (), s) => (.cleared (cache.id s), s)
  | (.error e, s) => (.error e, s)

/-- Reports on the cache, whose layers have the given type names. -/
def stats (cache : Cache σ) (layers : List String) (call : Call) (s : σ) : Response × σ :=
  match cache.size call s with
  | (.ok size, rest) =>
    (.statistics (cache.id s) ((cache.stats s).getD .none) size layers, rest)
  | (.error e, rest) => (.error e, rest)

/-- The answer of a route to a method that it answers, the state after it and the instant of the answer.
`time` is the time of day. -/
def answer (cache : Cache σ) (layers : List String) (time : String) (call : Call) (request : Request)
    (s : σ) : Route → Option (Response × σ × Nat)
  | .set =>
    match readBody request.contentType request.body with
    | .error response => some (response, s, call.now)
    | .ok stored => now (set cache call stored s)
  | .get segment =>
    match readKey segment with
    | .error response => some (response, s, call.now)
    | .ok key => get cache call key s
  | .delete segment =>
    match readKey segment with
    | .error response => some (response, s, call.now)
    | .ok key => now (delete cache call key s)
  | .clear => now (clear cache call s)
  | .stats => now (stats cache layers call s)
  | .health => some (.healthy time, s, call.now)
where
  now (result : Response × σ) : Option (Response × σ × Nat) :=
    some (result.1, result.2, call.now)

/-- The answer to a request for a path with the given route. A question whether one may ask is always
answered; a `HEAD` request is a `GET` request whose answer has no body. -/
def dispatch (cache : Cache σ) (layers : List String) (time : String) (call : Call)
    (request : Request) (s : σ) (route? : Option Route) : Option (Response × σ × Nat) :=
  let methods := (route?.map Route.methods).getD []
  if request.method = "OPTIONS" then
    let response :=
      if route?.isSome then Response.preflight.allowing methods else Response.preflight
    some (response, s, call.now)
  else
    match route? with
    | none => some (.bare 404, s, call.now)
    | some route =>
      if request.method ∈ methods then
        (answer cache layers time call request s route).map fun (response, s, now) =>
          (if request.method = "HEAD" then { response with body := "" } else response, s, now)
      else some ((Response.bare 405).allowing methods, s, call.now)

/-- Serves one request while no other thread acts; every answer may be read from any origin. -/
def serve (cache : Cache σ) (layers : List String) (time : String) (call : Call) (request : Request)
    (s : σ) : Option (Response × σ × Nat) :=
  (dispatch cache layers time call request s (Route.ofPath? (Target.path request.target))).map
    fun (response, s, now) => (response.anyOrigin, s, now)

end Server

end LayeredCache
