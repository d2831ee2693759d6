import DiosPool.Foundation.Program
import DiosPool.Foundation.Safety
import DiosPool.Foundation.Guarantee
import DiosPool.Foundation.Simulation
import DiosPool.Foundation.Resumable
import DiosPool.Foundation.Counting
import DiosPool.Foundation.CountingSort
import DiosPool.Foundation.Cyclic
import DiosPool.Foundation.Epochs
import DiosPool.Foundation.LinearProbing
import DiosPool.Foundation.Neighbours
import DiosPool.Foundation.RoundRobin
import DiosPool.Identity
import DiosPool.Table.PageTable
import DiosPool.Table.Seqlock
import DiosPool.Table.Sequential
import DiosPool.Table.Concurrent
import DiosPool.Driver.Operation
import DiosPool.Driver.Ring
import DiosPool.Driver.Effects
import DiosPool.Driver.Slab
import DiosPool.Driver.Files
import DiosPool.Driver.Invariant
import DiosPool.Driver.Machine
import DiosPool.Driver.Ledger
import DiosPool.Driver.Retirement
import DiosPool.Driver.Uring
import DiosPool.Driver.RingPoll
import DiosPool.Driver.Eager
import DiosPool.Driver.EagerCore
import DiosPool.Driver.BlockingWrite
import DiosPool.Driver.DirectWrite
import DiosPool.Driver.Quiesce
import DiosPool.Driver.Draining
import DiosPool.Driver.Teardown
import DiosPool.Pool.ReadSpans
import DiosPool.Pool.VectorRead
import DiosPool.Pool.VectorAttempt
import DiosPool.Pool.FileSlots
import DiosPool.Pool.FileMembers
import DiosPool.Pool.Miss
import DiosPool.Pool.MissIndex
import DiosPool.Pool.Clock
import DiosPool.Pool.Notifications
import DiosPool.Pool.Notified
import DiosPool.Pool.ReleaseRing
import DiosPool.Pool.WaitState
import DiosPool.Pool.WriteArena
import DiosPool.Pool.Prefetch.Pattern
import DiosPool.Pool.Prefetch.Queues
import DiosPool.Pool.Prefetch.Ledger
import DiosPool.Pool.Prefetch.FeedbackSort
import DiosPool.Pool.Prefetch.Protection
import DiosPool.Pool.Prefetch.Horizon
import DiosPool.Pool.State
import DiosPool.Pool.Builder
import DiosPool.Pool.BuilderFaults
import DiosPool.Pool.Threads
import DiosPool.Pool.Control
import DiosPool.Pool.Reclaim
import DiosPool.Pool.Routing
import DiosPool.Pool.Prefetch.Admission
import DiosPool.Pool.Prefetch.Windows
import DiosPool.Pool.Calls
import DiosPool.Pool.FailedMiss
import DiosPool.Pool.Invariant.Custody
import DiosPool.Pool.Invariant.Frames
import DiosPool.Pool.Invariant.Turns
import DiosPool.Pool.Invariant.Moves
import DiosPool.Pool.Invariant.Driver
import DiosPool.Pool.Invariant.Files
import DiosPool.Pool.Invariant.Places
import DiosPool.Pool.Invariant.Guards
import DiosPool.Pool.Invariant.MissTable
import DiosPool.Pool.Invariant.Misses
import DiosPool.Pool.Invariant.Occupancy
import DiosPool.Pool.Invariant.Resting
import DiosPool.Pool.Invariant.Spans
import DiosPool.Pool.Programs.Steps
import DiosPool.Pool.Programs.Rules
import DiosPool.Pool.Programs.Reaping
import DiosPool.Pool.Programs.Reclaiming
import DiosPool.Pool.Programs.Claiming
import DiosPool.Pool.Programs.Vectors
import DiosPool.Pool.Programs.Speculating
import DiosPool.Pool.Programs.Windows
import DiosPool.Pool.Programs.Explicit
import DiosPool.Pool.Programs.Streams
import DiosPool.Pool.SpanRead
import DiosPool.Pool.SpanOutcome
import DiosPool.Pool.ReadOutcome
import DiosPool.Pool.Attempts
import DiosPool.Pool.DirectRead
import DiosPool.Pool.ClockSweep
import DiosPool.Pool.PointRead
import DiosPool.Pool.StreamRuns
