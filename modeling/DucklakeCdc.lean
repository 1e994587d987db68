import DucklakeCdc.ExactlyOnce
import DucklakeCdc.SinkDelivery
import DucklakeCdc.TransactionAtomicity
import DucklakeCdc.DrainLoop
import DucklakeCdc.PullMode
import DucklakeCdc.SetupTransparency
import DucklakeCdc.ConnectionOwnership
import DucklakeCdc.SinkPairing
import DucklakeCdc.LeaseRespect
import DucklakeCdc.ShutdownDelivery
import DucklakeCdc.SignalLock
import DucklakeCdc.StopRequests
import DucklakeCdc.WorkerStarts
import DucklakeCdc.AppResources
import DucklakeCdc.WorkerHealth
import DucklakeCdc.SqlRendering
import DucklakeCdc.TransientLeaks
import DucklakeCdc.TransactionEnd
import DucklakeCdc.ChangeRows
import DucklakeCdc.DdlRows
import DucklakeCdc.GeneratorStops
import DucklakeCdc.GeneratorReplay
import DucklakeCdc.BatchCounts
import DucklakeCdc.CallableSinks
import DucklakeCdc.QueryErrors
import DucklakeCdc.Successors
import DucklakeCdc.SchemaDiffTable
import DucklakeCdc.CommitRecords
import DucklakeCdc.StdoutLines
import DucklakeCdc.WindowSizes
import DucklakeCdc.LeaseWaiting
import DucklakeCdc.WaitDeadline
import DucklakeCdc.ShutdownDeadline
import DucklakeCdc.BatchIds
import DucklakeCdc.RetryOutcomes
import DucklakeCdc.CauseChains
import DucklakeCdc.Interleavings
import DucklakeCdc.Fleets
import DucklakeCdc.FleetLeases
import DucklakeCdc.FleetExecutions
import DucklakeCdc.KeyedStores
import DucklakeCdc.IdempotentSinks
import DucklakeCdc.DeliveryOrder
import DucklakeCdc.CatchingUp
import DucklakeCdc.PromptStops
import DucklakeCdc.IdleReturns
import DucklakeCdc.LeaseTiming
import DucklakeCdc.Operations
import DucklakeCdc.ConsumerStatements
import DucklakeCdc.EndedTexts
import DucklakeCdc.StdoutStreams
import DucklakeCdc.TypedResults
import DucklakeCdc.TickRows
import DucklakeCdc.AppRegistration
import DucklakeCdc.FleetReplays
import DucklakeCdc.ClientConnections
import DucklakeCdc.ConnectionPinning
