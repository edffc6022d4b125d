import Rzid.Lib.HashMap
import Rzid.Lib.Counter
import Rzid.Lib.LastWith
import Rzid.Lib.Reorder
import Rzid.Lib.ReplaceFile
import Rzid.Lib.Serde
import Rzid.Lib.WriteBehind
import Rzid.Lib.WriteBehindRun
import Rzid.Lib.WriteBehindDrop
import Rzid.Lib.WriteBehindBarrier
import Rzid.Lib.FifoLock
import Rzid.Lib.FifoLockFair
import Rzid.Lib.FifoLockMakes
import Rzid.Lib.Sections
import Rzid.Lib.SectionsOrder
import Rzid.Lib.SectionsSpec
import Rzid.Data
import Rzid.Index
import Rzid.State
import Rzid.Service
import Rzid.Directory
import Rzid.Indexed
import Rzid.Version
import Rzid.Register
import Rzid.Segments
import Rzid.Sweep
import Rzid.Operation
import Rzid.Run
import Rzid.Restart
import Rzid.StateFile
import Rzid.AtomicWrite
import Rzid.Rebuilt
import Rzid.Sequential
import Rzid.Normalized
import Rzid.Refetch
import Rzid.ZoneSegments
import Rzid.RefCounts
import Rzid.LastCalls
import Rzid.Expiry
import Rzid.Gauges
import Rzid.Durable
import Rzid.Heartbeat
import Rzid.Overlap
import Rzid.Concurrent
import Rzid.Cancel
import Rzid.Barrier
import Rzid.GlobalVersion
import Rzid.Crash
import Rzid.Shutdown
import Rzid.Locks
import Rzid.Served
import Rzid.Codecs
import Rzid.Api
import Rzid.Server
import Rzid.Requests
import Rzid.Schedules
import Rzid.Clients
import Rzid.Manifest
import Rzid.Registry
import Rzid.Detector
