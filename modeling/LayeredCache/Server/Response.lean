import LayeredCache.Cache.Error
import LayeredCache.Cache.Stats
import LayeredCache.Json.Printer

/-!
# Responses

What the server answers: a status, headers and a body.
-/

namespace LayeredCache

structure Response where
  status : Nat
  headers : List (String × String)
  body : String
  deriving DecidableEq, Repr

/-- The status of an answer that reports an error. -/
def CacheError.status : CacheError → Nat
  | .notFound _ => 404
  | .invalidRequest _ => 400
  | .lockTimeout .. => 503
  | _ => 500

namespace Response

def withHeader (r : Response) (name value : String) : Response :=
  { r with headers := r.headers ++ [(name, value)] }

/-- An answer without content. -/
def bare (status : Nat) : Response :=
  ⟨status, [], ""⟩

/-- An answer with a JSON object, its fields in the given order. -/
def json (status : Nat) (fields : List (String × Json)) : Response :=
  ⟨status, [("content-type", "application/json")], (Json.object fields).print⟩

def text (status : Nat) (body : String) : Response :=
  ⟨status, [("content-type", "text/plain; charset=utf-8")], body⟩

/-- The answer names the methods of its path. -/
def allowing (r : Response) (methods : List String) : Response :=
  r.withHeader "allow" (String.intercalate "," methods)

/-- The answer may be read from any origin. -/
def anyOrigin (r : Response) : Response :=
  r.withHeader "access-control-allow-origin" "*"

/-- The answer to a browser's question whether it may ask: it may, by any method and with any header. -/
def preflight : Response :=
  (bare 200).withHeader "access-control-allow-methods" "*"
    |>.withHeader "access-control-allow-headers" "*"

def error (e : CacheError) : Response :=
  json e.status [("error", .string e.message)]

def stored (key : String) : Response :=
  json 200 [("message", .string s!"Key '{key}' set successfully"), ("key", .string key)]

def found (key : String) (value : Json) : Response :=
  json 200 [("key", .string key), ("value", value)]

def removed (key : String) : Response :=
  json 200 [("message", .string s!"Key '{key}' deleted successfully"), ("key", .string key)]

def cleared (id : String) : Response :=
  json 200 [("message", .string s!"Cache '{id}' cleared")]

/-- The statistics, the size and the layers of a cache. -/
def statistics (id : String) (stats : Stats) (size : Nat) (layers : List String) : Response :=
  json 200 [
    ("id", .string id),
    ("hits", .integer stats.hits),
    ("misses", .integer stats.misses),
    ("hit_rate", .float stats.hitRate),
    ("size", .integer size),
    ("layers", .array (layers.map .string))]

/-- The server is there; `time` is the time of day. -/
def healthy (time : String) : Response :=
  json 200 [("status", .string "healthy"), ("timestamp", .string time)]

end Response

end LayeredCache
