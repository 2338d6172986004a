import Domiform.Absolute
import Domiform.Adapters.LinkFrames
import Domiform.Adapters.MatterColor
import Domiform.Adapters.MatterFades
import Domiform.Adapters.MatterFrames
import Domiform.Adapters.Rumqttc
import Domiform.Adapters.ZwaveFrames
import Domiform.Admission
import Domiform.BrokerUrls
import Domiform.Bus
import Domiform.DeadTimers
import Domiform.Delays
import Domiform.Determinism
import Domiform.Edges
import Domiform.EventReferences
import Domiform.Expressible
import Domiform.Firings
import Domiform.Freshness
import Domiform.Guards
import Domiform.HeldTimers
import Domiform.Idle
import Domiform.InlinedSource
import Domiform.Inlining
import Domiform.Intake
import Domiform.Interpretation
import Domiform.Namespaces
import Domiform.Priming
import Domiform.Pump
import Domiform.Ranges
import Domiform.Relative
import Domiform.Reproducible
import Domiform.RestApi
import Domiform.RestApi.Addressing
import Domiform.RestApi.Auth
import Domiform.RestApi.Delivery
import Domiform.RestApi.EventStream
import Domiform.RestApi.Exchange
import Domiform.RestApi.Rendering
import Domiform.RestApi.Server
import Domiform.RestApi.Status
import Domiform.RestApi.Wire
import Domiform.RestApi.Writers
import Domiform.Retries
import Domiform.RetryOrder
import Domiform.Scenes
import Domiform.Schedules
import Domiform.Shutdown
import Domiform.Sustained
import Domiform.Timekeeping
import Domiform.Topics
import Domiform.Unknown
import Domiform.Wakes
import Domiform.Waking
import Domiform.ZwaveArithmetic
