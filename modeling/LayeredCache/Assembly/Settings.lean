import LayeredCache.Assembly.Spec
import LayeredCache.Decimal.Integer

/-!
# Settings

The settings of a server: where it listens and the cache that it serves. They come from variables of the
environment; a variable that cannot be read counts as not set.
-/

namespace LayeredCache

structure Settings where
  tcpPort : Nat
  cacheId : String
  implementation : Option String
  eviction : Option String
  size : Option Int
  /-- Milliseconds between scheduled clears. -/
  flushInterval : Option Nat
  readWrite : Bool
  blocking : Bool
  /-- Milliseconds that a lookup waits for a held key. -/
  blockingTimeout : Option Nat
  properties : Properties
  deriving DecidableEq

namespace Settings

def standard : Settings where
  tcpPort := 3000
  cacheId := "default"
  implementation := none
  eviction := none
  size := none
  flushInterval := none
  readWrite := true
  blocking := false
  blockingTimeout := none
  properties := .empty

def readUnsigned? (bits : Nat) (raw : String) : Option Nat :=
  (Decimal.readUnsigned bits raw.toList).toOption

/-- Reads a truth value; only two words are one. -/
def readBool? : String → Option Bool
  | "true" => some true
  | "false" => some false
  | _ => none

/-- The settings that the variables of an environment give. -/
def ofEnvironment (lookup : String → Option String) : Settings where
  tcpPort := ((lookup "SERVER_PORT").bind (readUnsigned? 16)).getD standard.tcpPort
  cacheId := (lookup "CACHE_ID").getD standard.cacheId
  implementation := lookup "CACHE_IMPLEMENTATION"
  eviction := lookup "CACHE_EVICTION"
  size := (lookup "CACHE_SIZE").bind fun raw => (Decimal.readSigned 32 raw.toList).toOption
  flushInterval := (lookup "CACHE_FLUSH_INTERVAL").bind (readUnsigned? 64)
  readWrite := ((lookup "CACHE_READ_WRITE").bind readBool?).getD standard.readWrite
  blocking := ((lookup "CACHE_BLOCKING").bind readBool?).getD standard.blocking
  blockingTimeout := (lookup "CACHE_BLOCKING_TIMEOUT").bind (readUnsigned? 64)
  properties := ((lookup "CACHE_PROPERTIES").map Properties.parse).getD .empty

variable {E : Extension}

/-- The type that a short name in the settings stands for. -/
def resolve (shortName : String) : Except CacheError (LayerType E) :=
  match LayerType.ofAlias? shortName with
  | some t => .ok t
  | none => .error (.invalidRequest s!"Unknown cache type alias '{shortName}'")

def resolveIf : Option String → Except CacheError (Option (LayerType E))
  | none => .ok none
  | some shortName => (resolve shortName).map some

/-- The specification of the cache that is served. The storage is resolved before the eviction. -/
def spec (s : Settings) : Except CacheError (Spec E) :=
  match resolveIf s.implementation with
  | .error e => .error e
  | .ok implementation =>
    match resolveIf s.eviction with
    | .error e => .error e
    | .ok eviction =>
      .ok {
        id := s.cacheId
        implementation := implementation
        decorators := eviction.toList
        size := s.size
        clearInterval := s.flushInterval.map (· * nanosPerMilli)
        readWrite := s.readWrite
        blocking := s.blocking
        blockingTimeout := s.blockingTimeout.map (· * nanosPerMilli)
        properties := s.properties }

end Settings

end LayeredCache
