import LayeredCache.Assembly.Binding
import LayeredCache.Assembly.Stage

/-!
# Building a cache

A specification becomes a stack of layers: the storage is made and given its properties, then each
decorator, then the standard stages follow. A storage of another kind than the perpetual one manages
itself; it only gets a layer that counts hits and misses, unless it counts them already.
-/

namespace LayeredCache.Spec

variable {E : Extension}

def buildStorage (spec : Spec E) (t : LayerType E) : Except CacheError (Stack E) :=
  match spec.storageKind t with
  | .error e => .error e
  | .ok kind =>
    match kind.model.make spec.id with
    | .error source => .error (.instantiationFailed spec.id t.name source)
    | .ok state =>
      match kind.model.attributes.bind spec.id kind.model.name spec.properties state with
      | (.error e, _) => .error e
      | (.ok (), state) => .ok (.base kind state)

def addDecorator (spec : Spec E) (now : Nat) (stack : Stack E) (t : LayerType E) :
    Except CacheError (Stack E) :=
  match spec.decoratorKind t with
  | .error e => .error e
  | .ok kind =>
    match kind.model.make now with
    | .error source => .error (.instantiationFailed spec.id t.name source)
    | .ok own =>
      match kind.model.attributes.bind spec.id kind.model.name spec.properties own with
      | (.error e, _) => .error e
      | (.ok (), own) => .ok (stack.wrap kind own)

/-- Makes decorators around a stack, innermost first. -/
def addDecorators (spec : Spec E) (now : Nat) :
    List (LayerType E) → Stack E → Except CacheError (Stack E)
  | [], stack => .ok stack
  | t :: ts, stack =>
    match spec.addDecorator now stack t with
    | .error e => .error e
    | .ok stack => spec.addDecorators now ts stack

/-- Builds the cache at an instant. The first failure aborts it. -/
def build (spec : Spec E) (now : Nat) : Except CacheError (Stack E) :=
  match spec.buildStorage spec.storage with
  | .error e => .error e
  | .ok stack =>
    if spec.storage.isPerpetual then
      match spec.addDecorators now spec.effectiveDecorators stack with
      | .error e => .error e
      | .ok stack => Stage.applyEnabled spec now Stage.all stack
    else if stack.stats.isNone then .ok (stack.wrap .logging .empty)
    else .ok stack

end LayeredCache.Spec
