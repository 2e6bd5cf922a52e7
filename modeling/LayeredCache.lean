import LayeredCache.Assembly.Build
import LayeredCache.Assembly.Settings
import LayeredCache.Cache.Session
import LayeredCache.Proofs.Assembly.BoundedAge
import LayeredCache.Proofs.Assembly.BoundedStack
import LayeredCache.Proofs.Assembly.Buildable
import LayeredCache.Proofs.Assembly.CapacityHint
import LayeredCache.Proofs.Assembly.EqualSpecs
import LayeredCache.Proofs.Assembly.FailedOperations
import LayeredCache.Proofs.Assembly.HandedBack
import LayeredCache.Proofs.Assembly.HandedOver
import LayeredCache.Proofs.Assembly.LeastCapacity
import LayeredCache.Proofs.Assembly.PropertyTexts
import LayeredCache.Proofs.Assembly.Releasing
import LayeredCache.Proofs.Assembly.Routes
import LayeredCache.Proofs.Assembly.Statistics
import LayeredCache.Proofs.Assembly.TimelyEviction
import LayeredCache.Proofs.Assembly.UnexposedProperties
import LayeredCache.Proofs.Assembly.Validation
import LayeredCache.Proofs.Cache.IntegerKinds
import LayeredCache.Proofs.Concurrency.AtomicEviction
import LayeredCache.Proofs.Concurrency.Serving
import LayeredCache.Proofs.Concurrency.SingleFlight
import LayeredCache.Proofs.Json.Reading
import LayeredCache.Proofs.Layer.LargerCapacity
import LayeredCache.Proofs.Layer.RecencyHistory
import LayeredCache.Proofs.Server.MapServer
import LayeredCache.Proofs.Server.NeverFails
import LayeredCache.Server.Handler
