import KVCache.Data.Table
import KVCache.Data.Bytes
import KVCache.Data.Execution
import KVCache.Data.Runs
import KVCache.Data.Locks
import KVCache.Data.OrderedMap
import KVCache.Data.Words
import KVCache.Data.PriorityQueue
import KVCache.Semantics.Config
import KVCache.Semantics.Slab
import KVCache.Semantics.State
import KVCache.Semantics.Startup
import KVCache.Semantics.Writer
import KVCache.Semantics.Flush
import KVCache.Semantics.Collector
import KVCache.Semantics.Victims
import KVCache.Semantics.System
import KVCache.Semantics.Threads
import KVCache.Semantics.Reader
import KVCache.Semantics.Locking
import KVCache.Semantics.Ssd
import KVCache.Semantics.Addresses
import KVCache.Semantics.Image
import KVCache.Invariant.Inversion
import KVCache.Invariant.Gauges
import KVCache.Invariant.Pool
import KVCache.Invariant.Slots
import KVCache.Invariant.Index
import KVCache.Invariant.Roles
import KVCache.Invariant.Coherence
import KVCache.Invariant.Census
import KVCache.Invariant.Frame
import KVCache.Invariant.Flush
import KVCache.Invariant.Writer
import KVCache.Invariant.QuickGc
import KVCache.Invariant.Move
import KVCache.Invariant.NormalGc
import KVCache.Invariant.GcRound
import KVCache.Invariant.Selection
import KVCache.Invariant.Startup
import KVCache.Invariant.Operations
import KVCache.Invariant.Threads
import KVCache.Invariant.CollectorSteps
import KVCache.Invariant.Interleaving
import KVCache.Invariant.Assertions
import KVCache.Invariant.Termination
import KVCache.Invariant.Footprint
import KVCache.Properties.Lookup
import KVCache.Properties.Accounting
import KVCache.Properties.Eviction
import KVCache.Properties.Builds
import KVCache.Properties.Overflow
import KVCache.Properties.Consistency
import KVCache.Properties.Concurrency
import KVCache.Properties.WaterMarks
import KVCache.Properties.Pressure
import KVCache.Properties.Provisioning
import KVCache.Properties.Waiting
import KVCache.Properties.Relocking
import KVCache.Properties.Enumeration
import KVCache.Properties.Admission
import KVCache.Properties.Addresses
import KVCache.Properties.Image
import KVCache.Properties.Layout
import KVCache.Properties.Containment
import KVCache.Properties.WriteError
import KVCache.Properties.Victims
import KVCache.Properties.Reclaiming
import KVCache.Data.Rings
import KVCache.Semantics.LinkedLists
import KVCache.Data.Cycles
import KVCache.Invariant.Scans
import KVCache.Properties.LinkedLists
import KVCache.Properties.RoundRobin
import KVCache.Data.LossyMaps
import KVCache.Invariant.MemorySide
import KVCache.Invariant.Transitions
import KVCache.Properties.Refinement
import KVCache.Properties.Turnover
import KVCache.Data.Erasure
import KVCache.Invariant.Raising
import KVCache.Properties.Sleepers
import KVCache.Data.Oversleeping
import KVCache.Properties.Notifications
import KVCache.Data.Simulations
import KVCache.Invariant.Independence
import KVCache.Invariant.Drafts
import KVCache.Invariant.Following
import KVCache.Invariant.Routines
import KVCache.Properties.Schedules
