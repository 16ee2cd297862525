import Durable.Text.Blank
import Durable.Text.Integer
import Durable.Text.Printable
import Durable.Text.Quoted
import Durable.Decimal.Layout
import Durable.Decimal.Reading
import Durable.Json.Text
import Durable.Time.Printer
import Durable.Time.Reader
import Durable.Clock
import Durable.Error
import Durable.Operation.Codec
import Durable.History
import Durable.Retry.Strategy
import Durable.Step
import Durable.Store.Table
import Durable.Store.Location
import Durable.OperationLog
import Durable.Diagnostic
import Durable.Execution
import Durable.Value
import Durable.Script
import Durable.Script.Codec
import Durable.Script.Trace
import Durable.Recording
import Durable.Config
import Durable.Runner
import Durable.Order.Host
import Durable.Main
import Durable.Proofs.LatestRecord
import Durable.Proofs.Persistence
import Durable.Proofs.Emission
import Durable.Proofs.AttemptCourse
import Durable.Proofs.StepCourse
import Durable.Proofs.WaitCourse
import Durable.Proofs.Trace
import Durable.Proofs.Session
import Durable.Proofs.Ledger
import Durable.Proofs.AtMostOnce
import Durable.Proofs.CallRecords
import Durable.Proofs.Settlement
import Durable.Proofs.OrderlyLog
import Durable.Proofs.PassCalls
import Durable.Proofs.Durability
import Durable.Proofs.Plan
import Durable.Proofs.PlanReplay
import Durable.Proofs.Transparency
import Durable.Proofs.Recovery
import Durable.Proofs.Calendar
import Durable.Proofs.WrittenInstant
import Durable.Proofs.Chronicle
import Durable.Proofs.SessionChronicle
import Durable.Proofs.HistoryProtocol
import Durable.Proofs.LogShape
import Durable.Proofs.Interruption
import Durable.Proofs.InstantOrder
import Durable.Proofs.ReadyTimes
import Durable.Proofs.TimeGate
import Durable.Proofs.CallTraces
import Durable.Proofs.NextReadyTime
import Durable.Proofs.ReadCount
import Durable.Proofs.StillClock
import Durable.Proofs.TimePolicies
import Durable.Proofs.LogPosition
import Durable.Proofs.Schedule
import Durable.Proofs.ScheduledPass
import Durable.Proofs.SkipTime
import Durable.Proofs.FaithfulRecords
import Durable.Proofs.Outline
import Durable.Proofs.OutlinedPass
import Durable.Proofs.WaitingOperation
import Durable.Proofs.WakeTime
import Durable.Proofs.CallChanges
import Durable.Proofs.StoreFailures
import Durable.Proofs.LogRefinement
import Durable.Proofs.FixedPoint
import Durable.Proofs.LogOnce
import Durable.Proofs.ReplayMismatch
import Durable.Proofs.Independence
import Durable.Proofs.TableRefinement
import Durable.Proofs.LastingRecords
import Durable.Proofs.ReplayedResults
import Durable.Proofs.RecordChains
import Durable.Proofs.KeptHandles
import Durable.Proofs.ReplayFlag
import Durable.Proofs.SessionCalls
import Durable.Proofs.AttemptNumbers
import Durable.Proofs.RetryBudget
import Durable.Proofs.SaturatedTime
import Durable.Proofs.HistoryFold
import Durable.Proofs.CopiedHistory
import Durable.Proofs.BackoffDelays
import Durable.Proofs.LogScopes
import Durable.Proofs.StaleGuards
import Durable.Proofs.RecordJson
