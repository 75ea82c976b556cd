import System2.Execution.SubmitOnce
import System2.Execution.MessageSettled
import System2.Execution.GatesPassed
import System2.Broker.FillOnce
import System2.Broker.FillReported
import System2.Broker.WireOrder
import System2.Execution.WiredGate
import System2.Execution.SafetyMode
import System2.Execution.DarkRuntime
import System2.Common.QueueBackend
import System2.Common.HandleFencing
import System2.Execution.MessageVerdict
import System2.Execution.ConsumerService
import System2.Common.LeaseIds
import System2.Execution.ParkedKept
import System2.Execution.FillTold
import System2.Execution.TradingService
import System2.Execution.SignalOnce
import System2.ArtifactSync.ArtifactRoot
import System2.ArtifactSync.Downloader
import System2.ArtifactSync.LiveRegime
import System2.ArtifactSync.ArtifactHost
import System2.ArtifactSync.WithdrawalHonoured
import System2.ArtifactSync.RootSteps
import System2.ArtifactSync.WithdrawnServed
import System2.ArtifactSync.CompleteSets
import System2.Broker.PositionManager
import System2.Execution.CloseFacts
import System2.Execution.BypassSessions
import System2.Foundation.Sharing
import System2.Execution.CreditedFreshness
import System2.ArtifactSync.ServedBundle
import System2.Execution.FateUntold
import System2.Common.BoundedDelivery
import System2.Common.QueuePool
import System2.Common.LeaseExclusivity
import System2.Common.DeadLetters
import System2.Execution.CloseTracker
import System2.Execution.LiveRuntime
import System2.Execution.BookGuard
import System2.Execution.BookClosing
import System2.Execution.BypassCap
import System2.ArtifactSync.ArtifactDisk
import System2.ArtifactSync.PathConfinement
import System2.ArtifactSync.PathEscapes
import System2.ArtifactSync.RegimeGrid
import System2.ArtifactSync.ActivatedSet
import System2.ArtifactSync.FailedPoll
import System2.Broker.PriorAttempts
import System2.Broker.StopRatchet
import System2.Broker.ProtectiveMoves
import System2.Broker.StopRules
import System2.Broker.RestartStops
import System2.Foundation.DecimalText
import System2.Broker.WirePrices
import System2.Broker.StopGrid
import System2.Broker.StopsReal
import System2.Execution.TradeOpened
import System2.Execution.StartupReconcile
import System2.Execution.EngineRun
import System2.Execution.GracefulStop
import System2.Broker.StagedExits
import System2.Broker.TradeIsolation
import System2.Broker.ReferencePrice
import System2.Execution.HeartbeatReplay
import System2.Execution.ExpiryAtSubmit
import System2.Common.PullHandsOver
import System2.Common.SoleConsumer
import System2.Execution.OutboxDrain
import System2.Execution.BlockedOutbox
import System2.Execution.CloseScan
import System2.Execution.BackfillCloses
import System2.Execution.BackfillAgrees
import System2.Execution.CloseLedger
import System2.Execution.SweepEvidence
import System2.Execution.CloseContract
import System2.Execution.FalseDuplicates
import System2.Execution.TradeRecorder
import System2.Broker.ReconciledFill
import System2.Foundation.Frame
import System2.ArtifactSync.RegimeFeatures
import System2.ArtifactSync.RegimeInference
import System2.ArtifactSync.DetectAnswers
import System2.Broker.VerdictOrder
import System2.ArtifactSync.DebouncerWindow
import System2.ArtifactSync.PersistenceSmooth
import System2.ArtifactSync.SmoothAhead
import System2.ArtifactSync.OrderedMass
import System2.ArtifactSync.FeatureCausality
import System2.Foundation.Transaction
import System2.Execution.RecorderRecovery
import System2.Common.MigrationRecovery
import System2.Foundation.JsonText
import System2.Foundation.JsonTree
import System2.Foundation.Substitution
import System2.Foundation.JsonParse
import System2.Common.Logging
import System2.Common.MaskedText
import System2.Common.LogLines
import System2.Common.LogSecrets
import System2.Execution.EmergencyStop
import System2.Execution.LateOrders
import System2.ArtifactSync.StateMapping
import System2.ArtifactSync.Relabelling
import System2.ArtifactSync.FlickerRate
import System2.Common.Secrets
import System2.Execution.DualRun
import System2.Execution.Posture
import System2.Common.FirstDelivery
import System2.ArtifactSync.BarWindow
import System2.Foundation.Beside
import System2.Execution.OutboxPool
import System2.Execution.OutboxDelivered
import System2.Execution.OutboxJournal
import System2.Execution.SweepIsolation
import System2.Common.SharedQueue
import System2.Common.QueueSchema
import System2.Execution.PipelineGates
